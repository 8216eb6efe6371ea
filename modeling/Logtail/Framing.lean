import Mathlib.Data.List.Basic

/-!
# Delimiter-terminated records

A stream over any alphabet is cut at a delimiter `d` into complete records and
an unfinished residue. Both readers of a text file (line by line, or by
searching a buffer) are instances. Nothing here depends on what a record means.
-/

namespace Framing

universe u
variable {α : Type u}

/-- The symbols taken by complete records, delimiters included. -/
def extent : List (List α) → Nat
  | [] => 0
  | w :: ws => w.length + 1 + extent ws

@[simp] theorem extent_nil : extent ([] : List (List α)) = 0 := rfl

@[simp] theorem extent_cons (w : List α) (ws : List (List α)) :
    extent (w :: ws) = w.length + 1 + extent ws := rfl

theorem extent_append (vs ws : List (List α)) :
    extent (vs ++ ws) = extent vs + extent ws := by
  induction vs with
  | nil => simp
  | cons v vs ih =>
    rw [List.cons_append, extent_cons, extent_cons, ih]
    omega

theorem length_le_extent (ws : List (List α)) : ws.length ≤ extent ws := by
  induction ws with
  | nil => exact Nat.le_refl _
  | cons w ws ih =>
    rw [List.length_cons, extent_cons]
    omega

theorem extent_take_lt {ws : List (List α)} {n : Nat} (h : n < ws.length) :
    extent (ws.take n) < extent ws := by
  have hsplit := extent_append (ws.take n) (ws.drop n)
  have hdrop := length_le_extent (ws.drop n)
  rw [List.take_append_drop] at hsplit
  rw [List.length_drop] at hdrop
  omega

theorem length_join (d : α) (ws : List (List α)) :
    (ws.flatMap fun w => w ++ [d]).length = extent ws := by
  induction ws with
  | nil => rfl
  | cons w ws ih =>
    rw [List.flatMap_cons, List.length_append, ih, List.length_append, List.length_singleton,
      extent_cons]

variable [DecidableEq α]

/-- The first record and everything behind its delimiter. -/
def cut (d : α) : List α → Option (List α × List α)
  | [] => none
  | x :: xs => if x = d then some ([], xs) else (cut d xs).map fun p => (x :: p.1, p.2)

/-- Complete records, and the residue behind the last delimiter. -/
def split (d : α) : List α → List (List α) × List α
  | [] => ([], [])
  | x :: xs =>
    if x = d then ([] :: (split d xs).1, (split d xs).2)
    else match split d xs with
      | ([], r) => ([], x :: r)
      | (w :: ws, r) => ((x :: w) :: ws, r)

def records (d : α) (xs : List α) : List (List α) := (split d xs).1

def residue (d : α) (xs : List α) : List α := (split d xs).2

/-- The records of the stream, its unfinished residue counted as one. -/
def pieces (d : α) (xs : List α) : List (List α) :=
  records d xs ++ (if residue d xs = [] then [] else [residue d xs])

/-- Every record of the stream is complete. -/
def Terminated (d : α) (xs : List α) : Prop := residue d xs = []

instance (d : α) (xs : List α) : Decidable (Terminated d xs) :=
  inferInstanceAs (Decidable (residue d xs = []))

theorem cut_eq_some_iff (d : α) (xs w rest : List α) :
    cut d xs = some (w, rest) ↔ xs = w ++ d :: rest ∧ d ∉ w := by
  induction xs generalizing w with
  | nil => simp [cut]
  | cons x xs ih =>
    by_cases hx : x = d
    · subst x
      simp only [cut, if_pos, Option.some.injEq, Prod.mk.injEq]
      constructor
      · rintro ⟨rfl, rfl⟩
        simp
      · rintro ⟨heq, hw⟩
        cases w with
        | nil => simpa using heq
        | cons y w =>
          simp only [List.cons_append, List.cons.injEq] at heq
          exact False.elim (hw (heq.1 ▸ List.mem_cons_self))
    · simp only [cut, if_neg hx, Option.map_eq_some_iff, Prod.exists, Prod.mk.injEq]
      constructor
      · rintro ⟨v, r, hc, rfl, rfl⟩
        obtain ⟨hxs, hv⟩ := (ih v).mp hc
        refine ⟨by rw [hxs, List.cons_append], ?_⟩
        simp [hv, Ne.symm hx]
      · rintro ⟨heq, hw⟩
        cases w with
        | nil => simp [hx] at heq
        | cons y w =>
          simp only [List.cons_append, List.cons.injEq] at heq
          refine ⟨w, rest, (ih w).mpr ⟨heq.2, fun h => hw (List.mem_cons_of_mem _ h)⟩, ?_, rfl⟩
          rw [heq.1]

theorem cut_eq_none_iff (d : α) (xs : List α) : cut d xs = none ↔ d ∉ xs := by
  induction xs with
  | nil => simp [cut]
  | cons x xs ih =>
    by_cases hx : x = d
    · simp [cut, hx]
    · simp [cut, hx, ih, Ne.symm hx]

/-- Every stream is a first record with its delimiter, or has no delimiter. -/
theorem cut_cases (d : α) (xs : List α) :
    d ∉ xs ∨ ∃ w rest, xs = w ++ d :: rest ∧ d ∉ w := by
  cases hc : cut d xs with
  | none => exact Or.inl ((cut_eq_none_iff d xs).mp hc)
  | some p => exact Or.inr ⟨p.1, p.2, (cut_eq_some_iff d xs p.1 p.2).mp hc⟩

theorem split_of_not_mem {d : α} {xs : List α} (h : d ∉ xs) : split d xs = ([], xs) := by
  induction xs with
  | nil => rfl
  | cons x xs ih =>
    have hx : x ≠ d := fun he => h (he ▸ List.mem_cons_self)
    have hxs := ih (fun hm => h (List.mem_cons_of_mem _ hm))
    simp only [split, if_neg hx, hxs]

theorem split_record {d : α} {w : List α} (h : d ∉ w) (rest : List α) :
    split d (w ++ d :: rest) = (w :: (split d rest).1, (split d rest).2) := by
  induction w with
  | nil => simp [split]
  | cons x w ih =>
    have hx : x ≠ d := fun he => h (he ▸ List.mem_cons_self)
    have hw := ih (fun hm => h (List.mem_cons_of_mem _ hm))
    simp only [List.cons_append, split, if_neg hx, hw]

theorem records_of_not_mem {d : α} {xs : List α} (h : d ∉ xs) : records d xs = [] := by
  simp [records, split_of_not_mem h]

theorem residue_of_not_mem {d : α} {xs : List α} (h : d ∉ xs) : residue d xs = xs := by
  simp [residue, split_of_not_mem h]

@[simp] theorem records_nil (d : α) : records d [] = [] := rfl

@[simp] theorem residue_nil (d : α) : residue d [] = [] := rfl

theorem records_record {d : α} {w : List α} (h : d ∉ w) (rest : List α) :
    records d (w ++ d :: rest) = w :: records d rest := by
  simp [records, split_record h]

theorem residue_record {d : α} {w : List α} (h : d ∉ w) (rest : List α) :
    residue d (w ++ d :: rest) = residue d rest := by
  simp [residue, split_record h]

theorem terminated_nil (d : α) : Terminated d ([] : List α) := rfl

theorem terminated_record {d : α} {w : List α} (h : d ∉ w) (rest : List α) :
    Terminated d (w ++ d :: rest) ↔ Terminated d rest := by
  rw [Terminated, Terminated, residue_record h]

theorem terminated_of_not_mem {d : α} {xs : List α} (h : d ∉ xs) :
    Terminated d xs ↔ xs = [] := by
  rw [Terminated, residue_of_not_mem h]

/-- Records in the order in which a reader meets them. -/
theorem framing_induction (d : α) {motive : List α → Prop}
    (tail : ∀ xs, d ∉ xs → motive xs)
    (record : ∀ w rest, d ∉ w → motive rest → motive (w ++ d :: rest)) (xs : List α) :
    motive xs := by
  induction hn : xs.length using Nat.strongRecOn generalizing xs with
  | ind n ih =>
    rcases cut_cases d xs with h | ⟨w, rest, rfl, hw⟩
    · exact tail xs h
    · refine record w rest hw (ih rest.length ?_ rest rfl)
      rw [← hn]
      simp only [List.length_append, List.length_cons]
      omega

theorem not_mem_residue (d : α) (xs : List α) : d ∉ residue d xs := by
  induction xs using framing_induction d with
  | tail xs h => rwa [residue_of_not_mem h]
  | record w rest h ih => rwa [residue_record h]

theorem not_mem_of_mem_records {d : α} {xs w : List α} (h : w ∈ records d xs) : d ∉ w := by
  induction xs using framing_induction d with
  | tail xs hd => simp [records_of_not_mem hd] at h
  | record v rest hv ih =>
    rw [records_record hv] at h
    rcases List.mem_cons.mp h with heq | h
    · rwa [heq]
    · exact ih h

/-- Putting the delimiters back restores the stream. -/
theorem join_records (d : α) (xs : List α) :
    ((records d xs).flatMap fun w => w ++ [d]) ++ residue d xs = xs := by
  induction xs using framing_induction d with
  | tail xs h => simp [records_of_not_mem h, residue_of_not_mem h]
  | record w rest h ih =>
    rw [records_record h, residue_record h, List.flatMap_cons, List.append_assoc, ih]
    simp

theorem records_append {d : α} {xs : List α} (h : Terminated d xs) (ys : List α) :
    records d (xs ++ ys) = records d xs ++ records d ys := by
  induction xs using framing_induction d with
  | tail xs hd =>
    have hnil : xs = [] := (terminated_of_not_mem hd).mp h
    simp [hnil]
  | record w rest hw ih =>
    have hrest := (terminated_record hw rest).mp h
    rw [List.append_assoc, List.cons_append, records_record hw, records_record hw, ih hrest,
      List.cons_append]

theorem residue_append {d : α} {xs : List α} (h : Terminated d xs) (ys : List α) :
    residue d (xs ++ ys) = residue d ys := by
  induction xs using framing_induction d with
  | tail xs hd =>
    have hnil : xs = [] := (terminated_of_not_mem hd).mp h
    simp [hnil]
  | record w rest hw ih =>
    rw [List.append_assoc, List.cons_append, residue_record hw]
    exact ih ((terminated_record hw rest).mp h)

theorem terminated_append {d : α} {xs ys : List α} (h : Terminated d xs) :
    Terminated d (xs ++ ys) ↔ Terminated d ys := by
  rw [Terminated, Terminated, residue_append h]

/-- What follows any point of a complete stream is complete. -/
theorem terminated_drop {d : α} {xs : List α} (h : Terminated d xs) (n : Nat) :
    Terminated d (xs.drop n) := by
  induction xs using framing_induction d generalizing n with
  | tail xs hd =>
    have hnil : xs = [] := (terminated_of_not_mem hd).mp h
    simp [hnil, Terminated]
  | record w rest hw ih =>
    have hrest := (terminated_record hw rest).mp h
    by_cases hn : n ≤ w.length
    · rw [List.drop_append_of_le_length hn]
      have hdrop : d ∉ w.drop n := fun hm => hw (List.mem_of_mem_drop hm)
      exact (terminated_record hdrop rest).mpr hrest
    · have hskip : n - w.length = n - w.length - 1 + 1 := by omega
      rw [List.drop_append, List.drop_eq_nil_of_le (by omega), List.nil_append, hskip,
        List.drop_succ_cons]
      exact ih hrest (n - w.length - 1)

theorem mem_of_terminated {d : α} {xs : List α} (h : Terminated d xs) (hne : xs ≠ []) :
    d ∈ xs := by
  by_contra hd
  exact hne ((terminated_of_not_mem hd).mp h)

/-- Appending only completes the residue; earlier records stay. -/
theorem records_isPrefix (d : α) (xs ys : List α) :
    records d xs <+: records d (xs ++ ys) := by
  induction xs using framing_induction d with
  | tail xs h => simp [records_of_not_mem h]
  | record w rest h ih =>
    rw [List.append_assoc, List.cons_append, records_record h, records_record h]
    exact List.cons_prefix_cons.mpr ⟨rfl, ih⟩

theorem extent_records (d : α) (xs : List α) :
    extent (records d xs) + (residue d xs).length = xs.length := by
  have hjoin := congrArg List.length (join_records d xs)
  rwa [List.length_append, length_join] at hjoin

theorem extent_of_terminated {d : α} {xs : List α} (h : Terminated d xs) :
    extent (records d xs) = xs.length := by
  have hlen := extent_records d xs
  rw [h, List.length_nil] at hlen
  omega

theorem records_eq_nil_iff (d : α) (xs : List α) : records d xs = [] ↔ d ∉ xs := by
  constructor
  · intro h
    rcases cut_cases d xs with hno | ⟨w, rest, rfl, hw⟩
    · exact hno
    · simp [records_record hw] at h
  · exact records_of_not_mem

/-- What is appended is first joined to the residue. -/
theorem records_append_residue (d : α) (xs ys : List α) :
    records d (xs ++ ys) = records d xs ++ records d (residue d xs ++ ys) := by
  induction xs using framing_induction d with
  | tail xs h => simp [records_of_not_mem h, residue_of_not_mem h]
  | record w rest h ih =>
    rw [List.append_assoc, List.cons_append, records_record h, records_record h,
      residue_record h, ih, List.cons_append]

theorem residue_append_residue (d : α) (xs ys : List α) :
    residue d (xs ++ ys) = residue d (residue d xs ++ ys) := by
  induction xs using framing_induction d with
  | tail xs h => rw [residue_of_not_mem h]
  | record w rest h ih =>
    rw [List.append_assoc, List.cons_append, residue_record h, residue_record h, ih]

theorem pieces_append {d : α} {xs : List α} (h : Terminated d xs) (ys : List α) :
    pieces d (xs ++ ys) = records d xs ++ pieces d ys := by
  rw [pieces, pieces, records_append h, residue_append h, List.append_assoc]

theorem pieces_of_terminated {d : α} {xs : List α} (h : Terminated d xs) :
    pieces d xs = records d xs := by
  simp [pieces, show residue d xs = [] from h]

/-- Appended symbols leave the pieces alone exactly when they complete the residue
and do nothing else. -/
theorem records_append_eq_pieces_iff (d : α) (xs ys : List α) :
    records d (xs ++ ys) = pieces d xs ↔
      (Terminated d xs ∧ d ∉ ys) ∨ (¬ Terminated d xs ∧ ∃ rest, ys = d :: rest ∧ d ∉ rest) := by
  rw [records_append_residue, pieces, List.append_cancel_left_eq]
  by_cases hres : residue d xs = []
  · have hterm : Terminated d xs := hres
    simp only [hres, List.nil_append, if_true, hterm, true_and, not_true, false_and, or_false]
    exact records_eq_nil_iff d ys
  · have hterm : ¬ Terminated d xs := hres
    have hr := not_mem_residue d xs
    simp only [if_neg hres, hterm, false_and, false_or, not_false_iff, true_and]
    rcases cut_cases d ys with hno | ⟨w, rest, rfl, hw⟩
    · have hnone : d ∉ residue d xs ++ ys := by simp [hr, hno]
      rw [records_of_not_mem hnone]
      constructor
      · intro h
        simp at h
      · rintro ⟨rest, rfl, _⟩
        simp at hno
    · have hrw : d ∉ residue d xs ++ w := by simp [hr, hw]
      rw [← List.append_assoc, records_record hrw, List.cons.injEq, List.append_right_eq_self,
        records_eq_nil_iff]
      constructor
      · rintro ⟨rfl, hrest⟩
        exact ⟨rest, rfl, hrest⟩
      · rintro ⟨rest', heq, hrest'⟩
        cases w with
        | nil =>
          obtain rfl : rest = rest' := by simpa using heq
          exact ⟨rfl, hrest'⟩
        | cons x w =>
          simp only [List.cons_append, List.cons.injEq] at heq
          exact absurd (heq.1 ▸ List.mem_cons_self) hw

theorem not_mem_of_mem_pieces {d : α} {xs w : List α} (h : w ∈ pieces d xs) : d ∉ w := by
  rcases List.mem_append.mp h with hw | hw
  · exact not_mem_of_mem_records hw
  · split at hw
    · cases hw
    · rw [List.mem_singleton.mp hw]
      exact not_mem_residue d xs

theorem length_le_extent_pieces (d : α) (xs : List α) : xs.length ≤ extent (pieces d xs) := by
  have hlen := extent_records d xs
  rw [pieces, extent_append]
  by_cases hres : residue d xs = []
  · rw [hres, List.length_nil] at hlen
    omega
  · rw [if_neg hres, extent_cons, extent_nil]
    omega

end Framing
