import Logtail.Transitions

/-!
# What one part sees of a run

An action of a composed system is a list of actions of one of its parts, empty
where the part is not concerned. When every step of the system keeps the part in
relation, the part runs through what it sees of every run, and its own rules hold
on the way.
-/

namespace Simulation

open Transitions

universe u v w x
variable {S : Type u} {A : Type v} {T : Type w} {B : Type x}
  {stepS : S → A → S} {stepT : T → B → T} {seen : S → A → List B}
  {R : S → T → Prop} {G : S → A → Prop} {H : T → B → Prop}

variable (stepS seen) in
/-- What the part sees of a run. -/
def seenIn : S → List A → List B
  | _, [] => []
  | s, a :: as => seen s a ++ seenIn (stepS s a) as

variable (stepS stepT seen R G H) in
/-- Each step of the system that `G` allows is a run of the part that `H` allows. -/
structure Follows : Prop where
  related : ∀ s t a, R s t → G s a → R (stepS s a) (run stepT t (seen s a))
  allowed : ∀ s t a, R s t → G s a → Guarded stepT H t (seen s a)

theorem Follows.run_related (h : Follows stepS stepT seen R G H) {s : S} {t : T} {as : List A}
    (hst : R s t) (hrun : Guarded stepS G s as) :
    R (run stepS s as) (run stepT t (seenIn stepS seen s as)) := by
  induction as generalizing s t with
  | nil => exact hst
  | cons a as ih =>
    obtain ⟨ha, hrest⟩ := hrun
    rw [run_cons, seenIn, run_append]
    exact ih (h.related s t a hst ha) hrest

theorem Follows.run_allowed (h : Follows stepS stepT seen R G H) {s : S} {t : T} {as : List A}
    (hst : R s t) (hrun : Guarded stepS G s as) :
    Guarded stepT H t (seenIn stepS seen s as) := by
  induction as generalizing s t with
  | nil => trivial
  | cons a as ih =>
    obtain ⟨ha, hrest⟩ := hrun
    rw [seenIn, guarded_append]
    exact ⟨h.allowed s t a hst ha, ih (h.related s t a hst ha) hrest⟩

end Simulation
