import Logtail.Delivery

/-!
# A store behind a link that loses answers

The shipper of a ledger offers its pending records again until an offer is
answered. A store that takes an offer whose answer is lost holds a copy that the
shipper does not know of. `Offers` keeps the store's batches in groups: one group
for each acknowledged batch, and one for the batch that is still pending. Within
a group every copy continues the copy before it, since a pending batch only
grows.
-/

namespace Delivery

universe u

/-- Each list is an initial part of every later one. -/
def Growing {α : Type u} (copies : List (List α)) : Prop := copies.Pairwise (· <+: ·)

theorem growing_singleton {α : Type u} (b : List α) : Growing [b] := List.pairwise_singleton _ b

theorem Growing.concat_again {α : Type u} {copies : List (List α)} {b : List α}
    (h : Growing (copies ++ [b])) : Growing (copies ++ [b] ++ [b]) := by
  refine List.pairwise_append.mpr ⟨h, growing_singleton b, ?_⟩
  intro c hc d hd
  cases List.mem_singleton.mp hd
  rcases List.mem_append.mp hc with hc | hc
  · exact (List.pairwise_append.mp h).2.2 c hc b List.mem_cons_self
  · cases List.mem_singleton.mp hc
    exact List.prefix_refl b

theorem Growing.longer {α : Type u} {copies : List (List α)} {b : List α}
    (h : Growing (copies ++ [b])) (x : α) : Growing (copies ++ [b ++ [x]]) := by
  obtain ⟨hcopies, -, hlast⟩ := List.pairwise_append.mp h
  refine List.pairwise_append.mpr ⟨hcopies, growing_singleton _, ?_⟩
  intro c hc d hd
  cases List.mem_singleton.mp hd
  exact (hlast c hc b List.mem_cons_self).trans (List.prefix_append b [x])

/-- An acknowledged batch, and the copies of it that were stored before. -/
structure Stored (α : Type u) where
  batch : List α
  copies : List (List α)
  growing : Growing (copies ++ [batch])

namespace Stored

variable {α : Type u}

/-- The group as it stands in the store. -/
def group (b : Stored α) : List (List α) := b.copies ++ [b.batch]

end Stored

structure Offers (α : Type u) where
  ledger : Ledger α
  stored : List (Stored α)
  copies : List (List α)
  acked : ledger.acked = stored.map Stored.batch
  growing : Growing (copies ++ [ledger.pending])

namespace Offers

variable {α : Type u}

def empty : Offers α where
  ledger := .empty
  stored := []
  copies := []
  acked := rfl
  growing := growing_singleton _

/-- What the store holds, in the order of arrival. -/
def kept (o : Offers α) : List (List α) := o.stored.flatMap Stored.group ++ o.copies

/-- The copies whose answer did not arrive. -/
def lost (o : Offers α) : Nat := (o.stored.flatMap Stored.copies).length + o.copies.length

def push (o : Offers α) (x : α) : Offers α :=
  { o with
    ledger := o.ledger.push x
    growing := o.growing.longer x }

/-- The store takes the pending batch; the answer is lost. -/
def takeUnanswered (o : Offers α) : Offers α :=
  { o with
    copies := o.copies ++ [o.ledger.pending]
    growing := o.growing.concat_again }

/-- The store takes the pending batch and the shipper learns of it. -/
def takeAnswered (o : Offers α) : Offers α where
  ledger := o.ledger.acknowledge
  stored := o.stored ++ [⟨o.ledger.pending, o.copies, o.growing⟩]
  copies := []
  acked := by simp [Ledger.acknowledge, o.acked]
  growing := growing_singleton _

@[simp] theorem kept_push (o : Offers α) (x : α) : (o.push x).kept = o.kept := rfl

@[simp] theorem lost_push (o : Offers α) (x : α) : (o.push x).lost = o.lost := rfl

@[simp] theorem kept_takeUnanswered (o : Offers α) :
    o.takeUnanswered.kept = o.kept ++ [o.ledger.pending] := by
  simp [kept, takeUnanswered]

@[simp] theorem lost_takeUnanswered (o : Offers α) : o.takeUnanswered.lost = o.lost + 1 := by
  simp only [lost, takeUnanswered, List.length_append, List.length_singleton]
  omega

@[simp] theorem kept_takeAnswered (o : Offers α) :
    o.takeAnswered.kept = o.kept ++ [o.ledger.pending] := by
  simp [kept, takeAnswered, Stored.group]

@[simp] theorem lost_takeAnswered (o : Offers α) : o.takeAnswered.lost = o.lost := by
  simp [lost, takeAnswered]

theorem batch_sublist_group : ∀ stored : List (Stored α),
    (stored.map Stored.batch).Sublist (stored.flatMap Stored.group)
  | [] => List.Sublist.slnil
  | b :: stored => by
    rw [List.map_cons, List.flatMap_cons]
    have hb : [b.batch].Sublist b.group := List.sublist_append_right b.copies [b.batch]
    exact hb.append (batch_sublist_group stored)

theorem length_group : ∀ stored : List (Stored α),
    (stored.flatMap Stored.group).length
      = stored.length + (stored.flatMap Stored.copies).length
  | [] => rfl
  | b :: stored => by
    have ih := length_group stored
    simp only [List.flatMap_cons, List.length_append, List.length_cons, Stored.group,
      List.length_nil, ih]
    omega

/-- Every acknowledged batch is in the store, in the order of acknowledgement. -/
theorem acked_sublist_kept (o : Offers α) : o.ledger.acked.Sublist o.kept := by
  rw [o.acked]
  exact (batch_sublist_group o.stored).trans (List.sublist_append_left _ _)

/-- The store holds one batch for each acknowledgement and one for each lost answer. -/
theorem length_kept (o : Offers α) : o.kept.length = o.ledger.acked.length + o.lost := by
  have hgroups := length_group o.stored
  rw [o.acked, kept, lost, List.length_append, List.length_map]
  omega

/-- Without lost answers the store holds every record once. -/
theorem kept_eq_acked_iff (o : Offers α) : o.kept = o.ledger.acked ↔ o.lost = 0 := by
  have hlen := o.length_kept
  constructor
  · intro h
    rw [h] at hlen
    omega
  · intro h
    exact (o.acked_sublist_kept.eq_of_length (by omega)).symm

end Offers

end Delivery
