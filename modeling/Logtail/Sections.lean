import Mathlib.Data.List.Induction
import Mathlib.Data.List.Nodup

/-!
# Sectioned streams and last assignments

A stream of headers and entries; an entry belongs to the header in front of it.
A collector that files a section only when the next header or the end comes files
the same sections as one that looks ahead. In a map that is filled from a list
the last assignment of a key wins.
-/

namespace Sections

open Std

universe u v w

section

variable {N : Type u} {K : Type v} {V : Type w}

inductive Item (N : Type u) (K : Type v) (V : Type w) where
  | header (name : N)
  | entry (key : K) (value : V)
  deriving DecidableEq

/-- The entries in front of the first header. -/
def body : List (Item N K V) → List (K × V)
  | .entry key value :: items => (key, value) :: body items
  | _ => []

def sections : List (Item N K V) → List (N × List (K × V))
  | [] => []
  | .header name :: items => (name, body items) :: sections items
  | .entry _ _ :: items => sections items

def names : List (Item N K V) → List N
  | [] => []
  | .header name :: items => name :: names items
  | .entry _ _ :: items => names items

@[simp] theorem body_nil : body ([] : List (Item N K V)) = [] := rfl

@[simp] theorem body_header (name : N) (items : List (Item N K V)) :
    body (.header name :: items) = [] := rfl

@[simp] theorem body_entry (key : K) (value : V) (items : List (Item N K V)) :
    body (.entry key value :: items) = (key, value) :: body items := rfl

theorem sections_map_fst (items : List (Item N K V)) :
    (sections items).map Prod.fst = names items := by
  induction items with
  | nil => rfl
  | cons item items ih =>
    cases item with
    | header name => rw [sections, names, List.map_cons, ih]
    | entry key value => exact ih

theorem mem_names {name : N} {items : List (Item N K V)} :
    name ∈ names items ↔ .header name ∈ items := by
  induction items with
  | nil => simp [names]
  | cons item items ih => cases item <;> simp [names, ih]

theorem sections_append (items rest : List (Item N K V)) (h : body rest = []) :
    sections (items ++ rest) = sections items ++ sections rest ∧
      body (items ++ rest) = body items := by
  induction items with
  | nil => exact ⟨rfl, h⟩
  | cons item items ih =>
    cases item with
    | header name => simp [sections, ih]
    | entry key value => simp [sections, ih]

end

/-- A section in progress and what has been filed before it. -/
structure Collector (D : Type u) (N : Type v) (M : Type w) where
  done : D
  name : N
  values : M

namespace Collector

universe u' v'
variable {D : Type u} {N : Type v} {M : Type w} {K : Type u'} {V : Type v'}
variable (put : M → K × V → M) (new : M) (file : D → N × M → D)

def flush (c : Collector D N M) : D := file c.done (c.name, c.values)

def collect (c : Collector D N M) : Item N K V → Collector D N M
  | .header name => ⟨c.flush file, name, new⟩
  | .entry key value => { c with values := put c.values (key, value) }

/-- Filing late files, in order, the section in progress and those that follow. -/
theorem flush_collect (items : List (Item N K V)) (c : Collector D N M) :
    (items.foldl (collect put new file) c).flush file =
      ((c.name, (body items).foldl put c.values) ::
        (sections items).map fun s => (s.1, s.2.foldl put new)).foldl file c.done := by
  induction items generalizing c with
  | nil => rfl
  | cons item items ih =>
    cases item with
    | header name =>
      rw [List.foldl_cons, ih]
      rfl
    | entry key value =>
      rw [List.foldl_cons, ih]
      rfl

/-- What is in progress is the last section, or what was in progress before. -/
theorem name_collect (items : List (Item N K V)) (c : Collector D N M) :
    (items.foldl (collect put new file) c).name = (names items).getLast?.getD c.name := by
  induction items generalizing c with
  | nil => rfl
  | cons item items ih =>
    rw [List.foldl_cons, ih]
    cases item with
    | header name =>
      rw [names, List.getLast?_cons, Option.getD_some]
      rfl
    | entry key value => rfl

end Collector

section

variable {α : Type u} {β : Type v} {cmp : α → α → Ordering} [TransCmp cmp] [LawfulEqCmp cmp]

def assign (m : ExtTreeMap α β cmp) (e : α × β) : ExtTreeMap α β cmp := m.insert e.1 e.2

def fill (es : List (α × β)) : ExtTreeMap α β cmp := es.foldl assign ∅

variable [DecidableEq α]

/-- The value of the last assignment of `k`. -/
def lastValue (es : List (α × β)) (k : α) : Option β :=
  ((es.filter fun e => e.1 = k).getLast?).map Prod.snd

theorem lastValue_concat (es : List (α × β)) (e : α × β) (k : α) :
    lastValue (es ++ [e]) k = if e.1 = k then some e.2 else lastValue es k := by
  by_cases he : e.1 = k <;> simp [lastValue, List.filter_append, he]

theorem lastValue_eq_none_iff {es : List (α × β)} {k : α} :
    lastValue es k = none ↔ k ∉ es.map Prod.fst := by
  simp only [lastValue, Option.map_eq_none_iff, List.getLast?_eq_none_iff, List.filter_eq_nil_iff,
    decide_eq_true_eq, List.mem_map, not_exists, not_and]

theorem lastValue_of_nodup {es : List (α × β)} (h : (es.map Prod.fst).Nodup) {k : α} {v : β} :
    lastValue es k = some v ↔ (k, v) ∈ es := by
  induction es using List.reverseRecOn with
  | nil => simp [lastValue]
  | append_singleton es e ih =>
    rw [List.map_append, List.nodup_append] at h
    rw [lastValue_concat]
    split
    · rename_i he
      subst he
      have hnot : ∀ v, (e.1, v) ∉ es := by
        intro v hv
        exact h.2.2 e.1 (List.mem_map.mpr ⟨_, hv, rfl⟩) e.1 (by simp) rfl
      constructor
      · intro hv
        simp [← Option.some.inj hv]
      · intro hv
        rcases List.mem_append.mp hv with hv | hv
        · exact absurd hv (hnot v)
        · rw [← List.mem_singleton.mp hv]
    · rename_i he
      rw [ih h.1]
      constructor
      · exact List.mem_append_left _
      · intro hv
        rcases List.mem_append.mp hv with hv | hv
        · exact hv
        · exact absurd (congrArg Prod.fst (List.mem_singleton.mp hv)).symm he

@[simp] theorem getElem?_fill (es : List (α × β)) (k : α) :
    (fill es : ExtTreeMap α β cmp)[k]? = lastValue es k := by
  induction es using List.reverseRecOn with
  | nil => simp [fill, lastValue]
  | append_singleton es e ih =>
    rw [fill] at ih
    rw [fill, List.foldl_append, List.foldl_cons, List.foldl_nil, assign,
      ExtTreeMap.getElem?_insert, ih, lastValue_concat]
    by_cases he : e.1 = k
    · simp [he]
    · simp [he]

@[simp] theorem mem_fill (es : List (α × β)) (k : α) :
    k ∈ (fill es : ExtTreeMap α β cmp) ↔ k ∈ es.map Prod.fst := by
  rw [ExtTreeMap.mem_iff_isSome_getElem?, getElem?_fill, Option.isSome_iff_ne_none, ne_eq,
    lastValue_eq_none_iff, not_not]

/-- The list holds each binding of the map once. -/
structure Enumerates (m : ExtTreeMap α β cmp) (es : List (α × β)) : Prop where
  nodup : (es.map Prod.fst).Nodup
  mem : ∀ k v, m[k]? = some v ↔ (k, v) ∈ es

theorem enumerates_fill {es : List (α × β)} (h : (es.map Prod.fst).Nodup) :
    Enumerates (fill es : ExtTreeMap α β cmp) es where
  nodup := h
  mem k v := by rw [getElem?_fill, lastValue_of_nodup h]

theorem Enumerates.fill_eq {m : ExtTreeMap α β cmp} {es : List (α × β)} (h : Enumerates m es) :
    fill es = m := by
  apply ExtTreeMap.ext_getElem?
  intro k
  ext v
  rw [getElem?_fill, lastValue_of_nodup h.nodup, h.mem]

end

end Sections
