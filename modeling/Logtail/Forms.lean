import Logtail.Framing
import Mathlib.Data.List.TakeWhile

/-!
# Forms

Fields `key=value` with a separator between them, and nothing escaped. A form is
read back when no value has the separator; of a form that is cut off at some symbol
the values must not have that symbol either.
-/

namespace Forms

open Framing

universe u
variable {α : Type u}

def writeField (equals : α) (f : List α × List α) : List α := f.1 ++ equals :: f.2

def write (amp equals : α) (fs : List (List α × List α)) : List α :=
  [amp].intercalate (fs.map (writeField equals))

variable {amp equals stop : α} {fs : List (List α × List α)} {text w : List α}

theorem not_mem_write (hkeys : ∀ f ∈ fs, stop ∉ f.1) (hamp : stop ≠ amp) (hequals : stop ≠ equals)
    (hvalues : ∀ f ∈ fs, stop ∉ f.2) : stop ∉ write amp equals fs := by
  rw [write]
  induction fs with
  | nil => simp
  | cons f fs ih =>
    have hfirst : stop ∉ writeField equals f := by
      simp [writeField, hkeys f List.mem_cons_self, hvalues f List.mem_cons_self, hequals]
    have hrest := ih (fun g hg => hkeys g (List.mem_cons_of_mem f hg))
      fun g hg => hvalues g (List.mem_cons_of_mem f hg)
    cases fs with
    | nil => simpa using hfirst
    | cons g fs =>
      rw [List.map_cons, List.map_cons, List.intercalate_cons_cons]
      rw [List.map_cons] at hrest
      simp only [List.mem_append, List.mem_singleton, not_or]
      exact ⟨⟨hfirst, hamp⟩, hrest⟩

variable [DecidableEq α]

/-- A field of a form; without an equals sign it is all key. -/
def readField (equals : α) (text : List α) : List α × List α := (cut equals text).getD (text, [])

def read (amp equals : α) (text : List α) : List (List α × List α) :=
  (text.splitOn amp).map (readField equals)

theorem mem_splitOn (h : w ∈ text.splitOn amp) : amp ∉ w ∧ w ⊆ text := by
  induction text generalizing w with
  | nil =>
    obtain rfl : w = [] := by simpa using h
    simp
  | cons x text ih =>
    rw [List.splitOn_cons_eq_if_modifyHead] at h
    split at h
    · rcases List.mem_cons.mp h with rfl | hw
      · simp
      · exact ⟨(ih hw).1, List.subset_cons_of_subset x (ih hw).2⟩
    · rename_i hx
      have hne : amp ≠ x := fun heq => hx (by simp [heq])
      cases hsplit : text.splitOn amp with
      | nil => exact absurd hsplit (List.splitOn_ne_nil amp text)
      | cons v vs =>
        rw [hsplit] at h ih
        rcases List.mem_cons.mp h with rfl | hw
        · obtain ⟨hv, hsub⟩ := ih List.mem_cons_self
          exact ⟨by simp [hne, hv], List.cons_subset_cons x hsub⟩
        · obtain ⟨hv, hsub⟩ := ih (List.mem_cons_of_mem v hw)
          exact ⟨hv, List.subset_cons_of_subset x hsub⟩

theorem readField_snd_subset (equals : α) (text : List α) : (readField equals text).2 ⊆ text := by
  rcases cut_cases equals text with hnot | ⟨w, rest, rfl, hw⟩
  · rw [readField, (cut_eq_none_iff equals text).mpr hnot]
    exact List.nil_subset text
  · rw [readField, (cut_eq_some_iff equals _ w rest).mpr ⟨rfl, hw⟩]
    exact fun x hx => List.mem_append_right w (List.mem_cons_of_mem equals hx)

theorem readField_writeField {f : List α × List α} (h : equals ∉ f.1) :
    readField equals (writeField equals f) = f := by
  rw [readField, (cut_eq_some_iff equals (writeField equals f) f.1 f.2).mpr ⟨rfl, h⟩]
  rfl

/-- Values have no symbol that the text does not have, and no separator. -/
theorem of_mem_read {f : List α × List α} (h : f ∈ read amp equals text) :
    amp ∉ f.2 ∧ f.2 ⊆ text := by
  obtain ⟨w, hw, rfl⟩ := List.mem_map.mp h
  obtain ⟨hamp, hsub⟩ := mem_splitOn hw
  have hvalue := readField_snd_subset equals w
  exact ⟨fun hmem => hamp (hvalue hmem), List.Subset.trans hvalue hsub⟩

theorem read_write (hne : fs ≠ []) (hkeys : ∀ f ∈ fs, amp ∉ f.1 ∧ equals ∉ f.1)
    (hequals : amp ≠ equals) (hvalues : ∀ f ∈ fs, amp ∉ f.2) :
    read amp equals (write amp equals fs) = fs := by
  have hfields : ∀ w ∈ fs.map (writeField equals), amp ∉ w := by
    intro w hw
    obtain ⟨f, hf, rfl⟩ := List.mem_map.mp hw
    simp [writeField, (hkeys f hf).1, hequals, hvalues f hf]
  rw [read, write, List.splitOn_intercalate amp hfields (by simpa using hne), List.map_map]
  have hback : ∀ f ∈ fs, (readField equals ∘ writeField equals) f = f :=
    fun f hf => readField_writeField (hkeys f hf).2
  rw [List.map_congr_left hback, List.map_id']

/-- A form that is cut off at the symbol `stop` is read back only when nothing in it is cut
off and nothing is taken for a separator. -/
theorem read_takeWhile_write_iff (hne : fs ≠ [])
    (hkeys : ∀ f ∈ fs, amp ∉ f.1 ∧ equals ∉ f.1 ∧ stop ∉ f.1) (hequals : amp ≠ equals)
    (hstop : stop ≠ amp ∧ stop ≠ equals) :
    read amp equals ((write amp equals fs).takeWhile fun x => x != stop) = fs ↔
      ∀ f ∈ fs, amp ∉ f.2 ∧ stop ∉ f.2 := by
  constructor
  · intro h f hf
    rw [← h] at hf
    obtain ⟨hamp, hsub⟩ := of_mem_read hf
    refine ⟨hamp, fun hmem => ?_⟩
    have hpast := List.mem_takeWhile_imp (hsub hmem)
    simp at hpast
  · intro h
    have hwhole : stop ∉ write amp equals fs :=
      not_mem_write (fun f hf => (hkeys f hf).2.2) hstop.1 hstop.2 fun f hf => (h f hf).2
    have htake : ((write amp equals fs).takeWhile fun x => x != stop) = write amp equals fs := by
      rw [List.takeWhile_eq_self_iff]
      intro x hx
      have hne : x ≠ stop := fun heq => hwhole (heq ▸ hx)
      simp [hne]
    rw [htake]
    exact read_write hne (fun f hf => ⟨(hkeys f hf).1, (hkeys f hf).2.1⟩) hequals
      fun f hf => (h f hf).1

end Forms
