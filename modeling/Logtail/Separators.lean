import Mathlib.Algebra.BigOperators.Group.List.Basic
import Mathlib.Algebra.Order.Ring.Nat
import Mathlib.Data.List.Infix

/-!
# Fields joined by separators

Fields of any content are joined, and nothing in them is escaped. All separators
begin with one mark and have it nowhere else, so that two of them never overlap
and occurrences can be counted field by field. Two lists of fields with the same
join are equal unless a separator occurs in a field in front of it in one list and
in a field behind it in the other.
-/

namespace Separators

universe u
variable {α : Type u}

/-- The word begins with the mark and does not have it again. -/
def Marked (c : α) (S : List α) : Prop := ∃ body, S = c :: body ∧ c ∉ body

/-- Separators of one mark, none the front part of another. -/
structure Separating (c : α) (seps : List (List α)) : Prop where
  marked : ∀ S ∈ seps, Marked c S
  apart : ∀ S ∈ seps, ∀ T ∈ seps, S <+: T → S = T

/-- The first field, and each separator with the field behind it. -/
def join : List α → List (List α × List α) → List α
  | f, [] => f
  | f, (S, g) :: rest => f ++ S ++ join g rest

/-- Some separator occurs in a field of the first list that stands in front of it, and in a
field of the second list behind it. -/
def Shifted : List α → List (List α × List α) → List (List α × List α) → Prop
  | f, (S, g) :: rest, (_, g') :: rest' =>
    (S <:+: f ∧ ∃ h ∈ g' :: rest'.map Prod.snd, S <:+: h) ∨ Shifted g rest rest'
  | _, _, _ => False

variable {c : α} {S T x y x' y' : List α}

theorem Marked.ne_nil (h : Marked c S) : S ≠ [] := by
  obtain ⟨body, rfl, -⟩ := h
  exact List.cons_ne_nil c body

/-- The mark is where an occurrence begins. -/
theorem Marked.head_of_prefix (h : Marked c S) {a : α} (hS : S <+: a :: x) : a = c := by
  obtain ⟨body, rfl, -⟩ := h
  exact (List.cons_prefix_cons.mp hS).1.symm

/-- The mark is in front of every proper end of the word. -/
theorem Marked.split (h : Marked c S) (hS : S = x ++ y) (hx : x ≠ []) : c ∉ y := by
  obtain ⟨body, rfl, hbody⟩ := h
  cases x with
  | nil => exact absurd rfl hx
  | cons a x =>
    obtain ⟨-, rfl⟩ := List.cons.inj hS
    exact fun hmem => hbody (List.mem_append_right x hmem)

/-- An occurrence that begins in front of a mark ends there. -/
theorem Marked.prefix_append_iff (h : Marked c S) (hx : x ≠ []) :
    S <+: x ++ c :: y ↔ S <+: x := by
  constructor
  · intro hS
    rcases List.prefix_or_prefix_of_prefix hS (List.prefix_append x (c :: y)) with hle | ⟨t, rfl⟩
    · exact hle
    · cases t with
      | nil => simp
      | cons d t =>
        have hmark : d = c :=
          (List.cons_prefix_cons.mp ((List.prefix_append_right_inj x).mp hS)).1
        exact absurd (hmark ▸ List.mem_cons_self) (h.split rfl hx)
  · exact fun hS => hS.trans (List.prefix_append x (c :: y))

/-- What stands in front of a further occurrence is empty or begins with one. -/
theorem Marked.cancel (h : Marked c S) (heq : S ++ y = x ++ (S ++ y')) :
    (x = [] ∧ y = y') ∨ ∃ u, x = S ++ u ∧ y = u ++ S ++ y' := by
  by_cases hx : x = []
  · subst hx
    exact Or.inl ⟨rfl, List.append_cancel_left heq⟩
  · have hpre : x <+: S ++ y := heq ▸ List.prefix_append x (S ++ y')
    right
    rcases List.prefix_or_prefix_of_prefix (List.prefix_append S y) hpre with ⟨u, rfl⟩ | ⟨t, ht⟩
    · rw [List.append_assoc] at heq
      exact ⟨u, rfl, by rw [List.append_cancel_left heq, List.append_assoc]⟩
    · cases t with
      | nil =>
        obtain rfl : x = S := by simpa using ht
        exact ⟨[], by simp, by simpa using heq⟩
      | cons d t =>
        have hbehind : d :: t ++ y = S ++ y' := by
          rw [← ht, List.append_assoc] at heq
          rw [← ht]
          exact List.append_cancel_left heq
        have hmark : d = c := by
          obtain ⟨body, hform, -⟩ := h
          rw [hform] at hbehind
          exact (List.cons.inj hbehind).1
        exact absurd (hmark ▸ List.mem_cons_self) (h.split ht.symm hx)

/-- Two ways to cut a word at the same separator. -/
theorem Marked.append_cases (h : Marked c S) (heq : x ++ S ++ y = x' ++ S ++ y') :
    (x = x' ∧ y = y') ∨
    (∃ u, x' = x ++ S ++ u ∧ y = u ++ S ++ y') ∨
    (∃ u, x = x' ++ S ++ u ∧ y' = u ++ S ++ y) := by
  rw [List.append_assoc, List.append_assoc] at heq
  rcases List.append_eq_append_iff.mp heq with ⟨a, rfl, ha⟩ | ⟨a, rfl, ha⟩
  · rcases h.cancel ha with ⟨rfl, hy⟩ | ⟨u, rfl, hy⟩
    · exact Or.inl ⟨(List.append_nil x).symm, hy⟩
    · exact Or.inr (Or.inl ⟨u, (List.append_assoc x S u).symm, hy⟩)
  · rcases h.cancel ha with ⟨rfl, hy⟩ | ⟨u, rfl, hy⟩
    · exact Or.inl ⟨List.append_nil x', hy.symm⟩
    · exact Or.inr (Or.inr ⟨u, (List.append_assoc x' S u).symm, hy⟩)

theorem Separating.tail {seps : List (List α)} (h : Separating c (S :: seps)) :
    Separating c seps where
  marked := fun T hT => h.marked T (List.mem_cons_of_mem S hT)
  apart := fun T hT U hU => h.apart T (List.mem_cons_of_mem S hT) U (List.mem_cons_of_mem S hU)

theorem Separating.behind {seps : List (List α)} (h : Separating c (S :: seps)) :
    ∀ T ∈ seps, Marked c T ∧ (S <+: T ∨ T <+: S → S = T) := by
  intro T hT
  have hmem := List.mem_cons_of_mem S hT
  refine ⟨h.marked T hmem, ?_⟩
  rintro (hle | hle)
  · exact h.apart S List.mem_cons_self T hmem hle
  · exact (h.apart T hmem S List.mem_cons_self hle).symm

section

variable [DecidableEq α]

/-- The places where `S` occurs. -/
def occurrences (S : List α) : List α → Nat
  | [] => 0
  | a :: x => (if S <+: a :: x then 1 else 0) + occurrences S x

theorem occurrences_pos_iff (hS : S ≠ []) : 0 < occurrences S x ↔ S <:+: x := by
  induction x with
  | nil => simp [occurrences, hS]
  | cons a x ih =>
    rw [occurrences, List.infix_cons_iff, ← ih]
    split
    · rename_i h
      exact ⟨fun _ => Or.inl h, fun _ => by omega⟩
    · rename_i h
      rw [Nat.zero_add, or_iff_right h]

/-- Nothing begins where the mark is missing. -/
theorem Marked.occurrences_of_not_mem (h : Marked c S) (hx : c ∉ x) (y : List α) :
    occurrences S (x ++ y) = occurrences S y := by
  induction x with
  | nil => rfl
  | cons a x ih =>
    have hno : ¬ S <+: a :: (x ++ y) := fun hS =>
      hx (h.head_of_prefix hS ▸ List.mem_cons_self)
    rw [List.cons_append, occurrences, if_neg hno, Nat.zero_add]
    exact ih fun hmem => hx (List.mem_cons_of_mem a hmem)

theorem Marked.occurrences_append (h : Marked c S) (x y : List α) :
    occurrences S (x ++ c :: y) = occurrences S x + occurrences S (c :: y) := by
  induction x with
  | nil => simp [occurrences]
  | cons a x ih =>
    have hiff : S <+: a :: (x ++ c :: y) ↔ S <+: a :: x :=
      h.prefix_append_iff (List.cons_ne_nil a x)
    rw [List.cons_append, occurrences, occurrences, ih]
    simp only [hiff]
    omega

/-- Occurrences across a separator, when no separator is a part in front of another. -/
theorem Marked.occurrences_separator (hS : Marked c S) (hT : Marked c T)
    (apart : S <+: T ∨ T <+: S → S = T) (x y : List α) :
    occurrences S (x ++ T ++ y) =
      occurrences S x + (if S = T then 1 else 0) + occurrences S y := by
  obtain ⟨body, rfl, hbody⟩ := hT
  have hiff : S <+: c :: (body ++ y) ↔ S = c :: body := by
    constructor
    · intro hpre
      exact apart (List.prefix_or_prefix_of_prefix hpre (List.prefix_append (c :: body) y))
    · rintro rfl
      exact List.prefix_append (c :: body) y
  rw [List.append_assoc, List.cons_append, hS.occurrences_append, occurrences,
    hS.occurrences_of_not_mem hbody]
  simp only [hiff]
  omega

variable {f f' : List α} {rest rest' : List (List α × List α)}

/-- A separator occurs where it separates, and in the fields. -/
theorem occurrences_join (hS : Marked c S)
    (seps : ∀ T ∈ rest.map Prod.fst, Marked c T ∧ (S <+: T ∨ T <+: S → S = T)) (f : List α) :
    occurrences S (join f rest) = (rest.map Prod.fst).countP (S = ·) +
      ((f :: rest.map Prod.snd).map (occurrences S)).sum := by
  induction rest generalizing f with
  | nil => simp [join]
  | cons p rest ih =>
    obtain ⟨T, g⟩ := p
    obtain ⟨⟨hT, apart⟩, hrest⟩ := List.forall_mem_cons.mp seps
    rw [join, hS.occurrences_separator hT apart, ih hrest g]
    simp only [List.map_cons, List.sum_cons, List.countP_cons, decide_eq_true_eq]
    omega

/-- One occurrence more than the list has separators of that kind is in a field. -/
theorem Separating.exists_infix {g : List α} (h : Separating c (S :: rest.map Prod.fst))
    (more : (rest.map Prod.fst).countP (S = ·) < occurrences S (join g rest)) :
    ∃ x ∈ g :: rest.map Prod.snd, S <:+: x := by
  have hS := h.marked S List.mem_cons_self
  by_contra hnone
  have hzero : ((g :: rest.map Prod.snd).map (occurrences S)).sum = 0 := by
    refine List.sum_eq_zero fun n hn => ?_
    obtain ⟨x, hx, rfl⟩ := List.mem_map.mp hn
    by_contra hpos
    exact hnone ⟨x, hx, (occurrences_pos_iff hS.ne_nil).mp (Nat.pos_of_ne_zero hpos)⟩
  rw [occurrences_join hS h.behind, hzero] at more
  exact Nat.lt_irrefl _ more

/-- If the field in front of a separator is longer in the second list, the separator is in a
field of the first one behind it. -/
theorem Separating.exists_infix_of_shift {g g' u : List α}
    (h : Separating c (S :: rest.map Prod.fst)) (hseps : rest.map Prod.fst = rest'.map Prod.fst)
    (heq : join g rest = u ++ S ++ join g' rest') : ∃ x ∈ g :: rest.map Prod.snd, S <:+: x := by
  have hS := h.marked S List.mem_cons_self
  have hcount := occurrences_join hS (hseps ▸ h.behind) g'
  refine h.exists_infix ?_
  rw [heq, hS.occurrences_separator hS (fun _ => rfl), hcount, if_pos rfl, hseps]
  omega

/-- Two lists of fields with the same join are equal, or shifted against each other. -/
theorem eq_or_shifted (h : Separating c (rest.map Prod.fst))
    (hseps : rest.map Prod.fst = rest'.map Prod.fst) (heq : join f rest = join f' rest') :
    (f = f' ∧ rest = rest') ∨ Shifted f rest rest' ∨ Shifted f' rest' rest := by
  induction rest generalizing f f' rest' with
  | nil =>
    obtain rfl := List.map_eq_nil_iff.mp hseps.symm
    exact Or.inl ⟨heq, rfl⟩
  | cons p rest ih =>
    obtain ⟨S, g⟩ := p
    cases rest' with
    | nil => cases hseps
    | cons p' rest' =>
      obtain ⟨S', g'⟩ := p'
      obtain ⟨hS, hrest⟩ := List.cons.inj hseps
      obtain rfl : S = S' := hS
      rcases (h.marked S List.mem_cons_self).append_cases heq with
        ⟨rfl, hjoin⟩ | ⟨u, rfl, hjoin⟩ | ⟨u, rfl, hjoin⟩
      · rcases ih h.tail hrest hjoin with ⟨rfl, rfl⟩ | hshift | hshift
        · exact Or.inl ⟨rfl, rfl⟩
        · exact Or.inr (Or.inl (Or.inr hshift))
        · exact Or.inr (Or.inr (Or.inr hshift))
      · have hfield := h.exists_infix_of_shift hrest hjoin
        exact Or.inr (Or.inr (Or.inl ⟨⟨f, u, rfl⟩, hfield⟩))
      · have hother : Separating c (S :: rest'.map Prod.fst) := by
          rw [← hrest]
          exact h
        have hfield := hother.exists_infix_of_shift hrest.symm hjoin
        exact Or.inr (Or.inl (Or.inl ⟨⟨f', u, rfl⟩, hfield⟩))

end

end Separators
