import Mathlib.Data.List.Infix

/-!
# Delivered up to a number of exceptions

`AllBut k owed sent`: of the records that are owed, all but at most `k` were sent,
in their order. What was sent besides, repeated or not, does not matter.
-/

namespace Coverage

universe u
variable {α : Type u}

def AllBut (k : Nat) (owed sent : List α) : Prop :=
  ∃ kept : List α, kept.Sublist owed ∧ kept.Sublist sent ∧ owed.length ≤ kept.length + k

theorem allBut_zero_iff {owed sent : List α} : AllBut 0 owed sent ↔ owed.Sublist sent := by
  constructor
  · rintro ⟨kept, howed, hsent, hlen⟩
    obtain rfl := howed.eq_of_length_le (by omega)
    exact hsent
  · intro h
    exact ⟨owed, List.Sublist.refl owed, h, by omega⟩

theorem AllBut.nil (sent : List α) : AllBut 0 [] sent := allBut_zero_iff.mpr (List.nil_sublist sent)

theorem AllBut.append {j k : Nat} {owed owed' sent sent' : List α} (h : AllBut j owed sent)
    (h' : AllBut k owed' sent') : AllBut (j + k) (owed ++ owed') (sent ++ sent') := by
  obtain ⟨kept, howed, hsent, hlen⟩ := h
  obtain ⟨kept', howed', hsent', hlen'⟩ := h'
  refine ⟨kept ++ kept', howed.append howed', hsent.append hsent', ?_⟩
  rw [List.length_append, List.length_append]
  omega

theorem AllBut.mono {k : Nat} {owed sent sent' : List α} (h : AllBut k owed sent)
    (hsent : sent.Sublist sent') : AllBut k owed sent' := by
  obtain ⟨kept, howed, hkept, hlen⟩ := h
  exact ⟨kept, howed, hkept.trans hsent, hlen⟩

/-- Only what is still pending is missing. -/
theorem allBut_pending (sent pending : List α) : AllBut pending.length (sent ++ pending) sent := by
  refine ⟨sent, List.sublist_append_left sent pending, List.Sublist.refl sent, ?_⟩
  rw [List.length_append]

end Coverage
