import Mathlib.Data.List.DropRight
import Mathlib.Data.List.TakeWhile

/-!
# Trimming at both ends

The symbols of a class `p` are dropped in front and at the end. What stands
between two symbols outside the class is kept.
-/

namespace Trimming

universe u
variable {α : Type u} (p : α → Bool)

def trim (l : List α) : List α := (l.dropWhile p).rdropWhile p

variable {p}

theorem rdropWhile_append_of_pos (l : List α) {ws : List α} (h : ∀ b ∈ ws, p b) :
    (l ++ ws).rdropWhile p = l.rdropWhile p := by
  induction ws using List.reverseRecOn with
  | nil => rw [List.append_nil]
  | append_singleton ws b ih =>
    have hb : p b := h b (by simp)
    rw [← List.append_assoc, List.rdropWhile_concat_pos p _ b hb]
    exact ih fun c hc => h c (by simp [hc])

theorem rdropWhile_append_cons (l : List α) {d : α} (hd : ¬ p d) (rest : List α) :
    (l ++ d :: rest).rdropWhile p = l ++ d :: rest.rdropWhile p := by
  induction rest using List.reverseRecOn with
  | nil => rw [List.rdropWhile_concat_neg p _ d hd, List.rdropWhile_nil]
  | append_singleton rest b ih =>
    by_cases hb : p b
    · rw [List.rdropWhile_concat_pos p _ b hb, ← ih, ← List.cons_append, ← List.append_assoc,
        List.rdropWhile_concat_pos p _ b hb]
    · rw [List.rdropWhile_concat_neg p _ b hb, ← List.cons_append, ← List.append_assoc,
        List.rdropWhile_concat_neg p _ b hb]

theorem dropWhile_append_cons (l : List α) {d : α} (hd : ¬ p d) (rest : List α) :
    (l ++ d :: rest).dropWhile p = l.dropWhile p ++ d :: rest := by
  induction l with
  | nil => rw [List.nil_append, List.dropWhile_cons_of_neg hd, List.dropWhile_nil, List.nil_append]
  | cons b l ih =>
    by_cases hb : p b
    · rw [List.cons_append, List.dropWhile_cons_of_pos hb, List.dropWhile_cons_of_pos hb, ih]
    · rw [List.cons_append, List.dropWhile_cons_of_neg hb, List.dropWhile_cons_of_neg hb,
        List.cons_append]

/-- Trimming does not reach over a symbol outside the class. -/
theorem trim_append_cons (l : List α) {d : α} (hd : ¬ p d) (rest : List α) :
    trim p (l ++ d :: rest) = l.dropWhile p ++ d :: rest.rdropWhile p := by
  rw [trim, dropWhile_append_cons l hd, rdropWhile_append_cons _ hd]

theorem length_trim_le (l : List α) : (trim p l).length ≤ l.length :=
  (List.rdropWhile_prefix p (l.dropWhile p)).length_le.trans (List.dropWhile_suffix p).length_le

theorem trim_of_pos {ws : List α} (h : ∀ b ∈ ws, p b) : trim p ws = [] := by
  rw [trim, List.dropWhile_eq_nil_iff.mpr h, List.rdropWhile_nil]

theorem trim_append_left {ws : List α} (h : ∀ b ∈ ws, p b) (l : List α) :
    trim p (ws ++ l) = trim p l := by
  rw [trim, trim, List.dropWhile_append_of_pos h]

/-- Words of the class, or a first symbol outside it. -/
theorem pos_or_split (l : List α) : (∀ b ∈ l, p b) ∨ ∃ w d rest, l = w ++ d :: rest ∧ ¬ p d := by
  by_cases h : ∀ b ∈ l, p b
  · exact Or.inl h
  · push Not at h
    obtain ⟨d, hd, hp⟩ := h
    obtain ⟨w, rest, rfl⟩ := List.append_of_mem hd
    exact Or.inr ⟨w, d, rest, rfl, by simpa using hp⟩

theorem trim_append_right (l : List α) {ws : List α} (h : ∀ b ∈ ws, p b) :
    trim p (l ++ ws) = trim p l := by
  rcases pos_or_split (p := p) l with hl | ⟨w, d, rest, rfl, hd⟩
  · rw [trim_append_left hl, trim_of_pos h, trim_of_pos hl]
  · rw [List.append_assoc, List.cons_append, trim_append_cons _ hd, trim_append_cons _ hd,
      rdropWhile_append_of_pos _ h]

theorem trim_dropWhile (l : List α) : trim p (l.dropWhile p) = trim p l := by
  rcases pos_or_split (p := p) l with hl | ⟨w, d, rest, rfl, hd⟩
  · rw [List.dropWhile_eq_nil_iff.mpr hl, trim_of_pos hl]
    rfl
  · rw [dropWhile_append_cons _ hd, trim_append_cons _ hd, trim_append_cons _ hd,
      List.dropWhile_idempotent]

theorem trim_rdropWhile (l : List α) : trim p (l.rdropWhile p) = trim p l := by
  rcases pos_or_split (p := p) l with hl | ⟨w, d, rest, rfl, hd⟩
  · rw [List.rdropWhile_eq_nil_iff.mpr hl, trim_of_pos hl]
    rfl
  · rw [rdropWhile_append_cons _ hd, trim_append_cons _ hd, trim_append_cons _ hd,
      List.rdropWhile_idempotent]

end Trimming
