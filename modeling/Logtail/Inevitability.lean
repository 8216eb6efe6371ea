import Logtail.Transitions
import Mathlib.Data.List.Basic

/-!
# What cannot be avoided

`Inevitable step G P s`: from `s`, whatever actions are chosen one after the other,
each allowed by `G` in its state, a state with `P` is met. The choice is free at each
step, and no bound on the number of steps is fixed in advance.
-/

namespace Inevitability

open Transitions

universe u v
variable {S : Type u} {A : Type v} (step : S → A → S) (G : S → A → Prop)

inductive Inevitable (P : S → Prop) : S → Prop where
  | now {s : S} (met : P s) : Inevitable P s
  | next {s : S} (later : ∀ a, G s a → Inevitable P (step s a)) : Inevitable P s

variable {step G} {P Q I : S → Prop} {s : S}

theorem Inevitable.trans (h : Inevitable step G P s) (leads : ∀ s, P s → Inevitable step G Q s) :
    Inevitable step G Q s := by
  induction h with
  | now met => exact leads _ met
  | next _ ih => exact .next ih

theorem Inevitable.mono (h : Inevitable step G P s) (imp : ∀ s, P s → Q s) :
    Inevitable step G Q s :=
  h.trans fun s hs => .now (imp s hs)

/-- With fewer actions to choose from it cannot be avoided either. -/
theorem Inevitable.restrict {fewer : S → A → Prop} (h : Inevitable step G P s)
    (allowed : ∀ s a, fewer s a → G s a) : Inevitable step fewer P s := by
  induction h with
  | now met => exact .now met
  | next _ ih => exact .next fun a ha => ih a (allowed _ a ha)

/-- What every step keeps holds where `P` is met. -/
theorem Inevitable.keep (preserved : ∀ s a, I s → G s a → I (step s a))
    (h : Inevitable step G P s) (hi : I s) : Inevitable step G (fun s => P s ∧ I s) s := by
  induction h with
  | now met => exact .now ⟨met, hi⟩
  | next _ ih => exact .next fun a ha => ih a ha (preserved _ a hi ha)

/-- A measure that falls outside the target, with an invariant. -/
theorem inevitable_of_measure {T : S → Prop} (measure : S → Nat)
    (progress : ∀ s a, I s → ¬ T s → G s a →
      T (step s a) ∨ (I (step s a) ∧ measure (step s a) < measure s))
    (h : I s) : Inevitable step G T s := by
  induction hm : measure s using Nat.strongRecOn generalizing s with
  | ind n ih =>
    by_cases ht : T s
    · exact .now ht
    · refine .next fun a ha => ?_
      rcases progress s a h ht ha with hmet | ⟨hnext, hlt⟩
      · exact .now hmet
      · exact ih (measure (step s a)) (hm ▸ hlt) hnext rfl

/-- Along every sequence of actions a state with `P` is met, or one that does not allow
the next action. -/
theorem Inevitable.met (h : Inevitable step G P s) (as : Nat → A) :
    ∃ n, P (run step s ((List.range n).map as)) ∨
      ¬ G (run step s ((List.range n).map as)) (as n) := by
  induction h generalizing as with
  | now met => exact ⟨0, Or.inl met⟩
  | @next s _ ih =>
    by_cases ha : G s (as 0)
    · obtain ⟨n, hn⟩ := ih (as 0) ha fun n => as (n + 1)
      refine ⟨n + 1, ?_⟩
      rw [List.range_succ_eq_map, List.map_cons, List.map_map]
      exact hn
    · exact ⟨0, Or.inr ha⟩

/-- What is met is met a first time. -/
theorem Inevitable.until_met (h : Inevitable step G P s) (as : Nat → A)
    (allowed : ∀ s n, G s (as n)) : ∃ n, Until step P s ((List.range n).map as) := by
  induction h generalizing as with
  | now met => exact ⟨0, met, trivial⟩
  | @next s _ ih =>
    by_cases hs : P s
    · exact ⟨0, hs, trivial⟩
    · obtain ⟨n, hn, hbefore⟩ :=
        ih (as 0) (allowed s 0) (fun n => as (n + 1)) fun t n => allowed t (n + 1)
      refine ⟨n + 1, ?_⟩
      rw [List.range_succ_eq_map, List.map_cons, List.map_map]
      exact ⟨hn, hs, hbefore⟩

end Inevitability
