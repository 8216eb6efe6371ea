import Mathlib.Data.List.Basic

/-!
# In-order delivery in acknowledged batches

What a shipper of records owes: everything it has taken is either in an
acknowledged batch or still pending, in the order in which it was taken. The
balance is part of the ledger, so a ledger that lost or repeated a record
cannot be written down.
-/

namespace Delivery

universe u

structure Ledger (α : Type u) where
  taken : List α
  acked : List (List α)
  pending : List α
  balanced : taken = acked.flatten ++ pending

namespace Ledger

variable {α : Type u}

def empty : Ledger α := ⟨[], [], [], rfl⟩

def push (l : Ledger α) (x : α) : Ledger α where
  taken := l.taken ++ [x]
  acked := l.acked
  pending := l.pending ++ [x]
  balanced := by rw [l.balanced, List.append_assoc]

/-- The whole pending batch is acknowledged at once. -/
def acknowledge (l : Ledger α) : Ledger α where
  taken := l.taken
  acked := l.acked ++ [l.pending]
  pending := []
  balanced := by simp [l.balanced]

inductive Move : Ledger α → Ledger α → Prop where
  | stay (l : Ledger α) : Move l l
  | push (l : Ledger α) (x : α) : Move l (l.push x)
  | acknowledge (l : Ledger α) : Move l l.acknowledge

end Ledger

end Delivery
