import Mathlib.Data.List.Basic

/-!
# Runs of a deterministic system under outside choices

`step s a` is the state after action `a`; every choice of the surroundings is
part of the action. A run is a list of actions. `Guarded` says that each action
was taken in a state that allowed it, `Always` that a property holds in every
state the run visits, the first and the last included.
-/

namespace Transitions

universe u v
variable {S : Type u} {A : Type v} (step : S → A → S)

def run : S → List A → S
  | s, [] => s
  | s, a :: as => run (step s a) as

def Guarded (guard : S → A → Prop) : S → List A → Prop
  | _, [] => True
  | s, a :: as => guard s a ∧ Guarded guard (step s a) as

def Always (P : S → Prop) : S → List A → Prop
  | s, [] => P s
  | s, a :: as => P s ∧ Always P (step s a) as

/-- The run ends in its first state with property `P`. -/
def Until (P : S → Prop) (s : S) (as : List A) : Prop :=
  P (run step s as) ∧ Guarded step (fun s _ => ¬ P s) s as

instance decidableGuarded (guard : S → A → Prop) [∀ s a, Decidable (guard s a)] :
    (s : S) → (as : List A) → Decidable (Guarded step guard s as)
  | _, [] => isTrue trivial
  | s, a :: as =>
    have := decidableGuarded guard (step s a) as
    inferInstanceAs (Decidable (guard s a ∧ Guarded step guard (step s a) as))

@[simp] theorem run_nil (s : S) : run step s ([] : List A) = s := rfl

@[simp] theorem run_cons (s : S) (a : A) (as : List A) :
    run step s (a :: as) = run step (step s a) as := rfl

variable {step}

theorem run_append (s : S) (as bs : List A) :
    run step s (as ++ bs) = run step (run step s as) bs := by
  induction as generalizing s with
  | nil => rfl
  | cons a as ih => exact ih (step s a)

theorem guarded_append {G : S → A → Prop} {s : S} {as bs : List A} :
    Guarded step G s (as ++ bs) ↔ Guarded step G s as ∧ Guarded step G (run step s as) bs := by
  induction as generalizing s with
  | nil => simp [Guarded]
  | cons a as ih => rw [List.cons_append, Guarded, Guarded, ih, run_cons, and_assoc]

theorem guarded_mono {G weaker : S → A → Prop} (imp : ∀ s a, G s a → weaker s a)
    {s : S} {as : List A} (h : Guarded step G s as) : Guarded step weaker s as := by
  induction as generalizing s with
  | nil => trivial
  | cons a as ih => exact ⟨imp s a h.1, ih h.2⟩

theorem guarded_true (s : S) (as : List A) : Guarded step (fun _ _ => True) s as := by
  induction as generalizing s with
  | nil => trivial
  | cons a as ih => exact ⟨trivial, ih (step s a)⟩

theorem guarded_and {G other : S → A → Prop} {s : S} {as : List A}
    (h : Guarded step G s as) (h' : Guarded step other s as) :
    Guarded step (fun s a => G s a ∧ other s a) s as := by
  induction as generalizing s with
  | nil => trivial
  | cons a as ih => exact ⟨⟨h.1, h'.1⟩, ih h.2 h'.2⟩

theorem Always.first {P : S → Prop} {s : S} {as : List A} (h : Always step P s as) : P s := by
  cases as with
  | nil => exact h
  | cons a as => exact h.1

theorem always_append {P : S → Prop} {s : S} {as bs : List A} (h : Always step P s (as ++ bs)) :
    Always step P (run step s as) bs := by
  induction as generalizing s with
  | nil => exact h
  | cons a as ih => exact ih h.2

theorem always_last {P : S → Prop} {s : S} {as : List A} (h : Always step P s as) :
    P (run step s as) := by
  have hend : Always step P s (as ++ []) := by rwa [List.append_nil]
  exact (always_append hend).first

theorem always_mono {P Q : S → Prop} (imp : ∀ s, P s → Q s) {s : S} {as : List A}
    (h : Always step P s as) : Always step Q s as := by
  induction as generalizing s with
  | nil => exact imp s h
  | cons a as ih => exact ⟨imp s h.1, ih h.2⟩

/-- The induction behind every safety result. -/
theorem invariant_run {G : S → A → Prop} {I : S → Prop}
    (preserved : ∀ s a, I s → G s a → I (step s a)) {s : S} {as : List A}
    (h : I s) (allowed : Guarded step G s as) : I (run step s as) := by
  induction as generalizing s with
  | nil => exact h
  | cons a as ih => exact ih (preserved s a h allowed.1) allowed.2

/-- An invariant of every step needs no guard. -/
theorem invariant_every_run {I : S → Prop} (preserved : ∀ s a, I s → I (step s a)) {s : S}
    (h : I s) (as : List A) : I (run step s as) := by
  induction as generalizing s with
  | nil => exact h
  | cons a as ih => exact ih (preserved s a h)

theorem invariant_always {G : S → A → Prop} {I : S → Prop}
    (preserved : ∀ s a, I s → G s a → I (step s a)) {s : S} {as : List A}
    (h : I s) (allowed : Guarded step G s as) : Always step I s as := by
  induction as generalizing s with
  | nil => exact h
  | cons a as ih => exact ⟨h, ih (preserved s a h allowed.1) allowed.2⟩

/-- An invariant that implies a guard makes every step obey it. -/
theorem guarded_of_invariant {R G : S → A → Prop} {I : S → Prop}
    (preserved : ∀ s a, I s → R s a → I (step s a))
    (implied : ∀ s a, I s → R s a → G s a) {s : S} {as : List A}
    (h : I s) (allowed : Guarded step R s as) : Guarded step G s as := by
  induction as generalizing s with
  | nil => trivial
  | cons a as ih =>
    exact ⟨implied s a h allowed.1, ih (preserved s a h allowed.1) allowed.2⟩

/-- If the invariant implies the property and each step outside the guard breaks
the property at once, then the property characterises the guarded runs. -/
theorem always_iff_guarded {R G : S → A → Prop} {I P : S → Prop}
    (sound : ∀ s, I s → P s)
    (preserved : ∀ s a, I s → R s a → G s a → I (step s a))
    (broken : ∀ s a, I s → R s a → ¬ G s a → ¬ P (step s a))
    {s : S} {as : List A} (h : I s) (allowed : Guarded step R s as) :
    Always step P s as ↔ Guarded step G s as := by
  induction as generalizing s with
  | nil => exact ⟨fun _ => trivial, fun _ => sound s h⟩
  | cons a as ih =>
    constructor
    · rintro ⟨_, hrest⟩
      have ha : G s a := by
        by_contra hn
        exact broken s a h allowed.1 hn hrest.first
      exact ⟨ha, (ih (preserved s a h allowed.1 ha) allowed.2).mp hrest⟩
    · rintro ⟨ha, hrest⟩
      exact ⟨sound s h, (ih (preserved s a h allowed.1 ha) allowed.2).mpr hrest⟩

/-- A law that holds of a step exactly when its guard does holds of a whole run
exactly when the guards do. -/
theorem guarded_iff_guarded {R G L : S → A → Prop} {I : S → Prop}
    (preserved : ∀ s a, I s → R s a → G s a → I (step s a))
    (decides : ∀ s a, I s → R s a → (L s a ↔ G s a))
    {s : S} {as : List A} (h : I s) (allowed : Guarded step R s as) :
    Guarded step L s as ↔ Guarded step G s as := by
  induction as generalizing s with
  | nil => exact Iff.rfl
  | cons a as ih =>
    have ha := decides s a h allowed.1
    constructor
    · rintro ⟨hlaw, hrest⟩
      have hg := ha.mp hlaw
      exact ⟨hg, (ih (preserved s a h allowed.1 hg) allowed.2).mp hrest⟩
    · rintro ⟨hg, hrest⟩
      exact ⟨ha.mpr hg, (ih (preserved s a h allowed.1 hg) allowed.2).mpr hrest⟩

/-- The first step outside the guard leads to `J`, which every step keeps. -/
theorem run_of_not_guarded {R G : S → A → Prop} {I J : S → Prop}
    (preserved : ∀ s a, I s → R s a → G s a → I (step s a))
    (left : ∀ s a, I s → R s a → ¬ G s a → J (step s a))
    (stays : ∀ s a, J s → R s a → J (step s a))
    {s : S} {as : List A} (h : I s) (allowed : Guarded step R s as)
    (unguarded : ¬ Guarded step G s as) : J (run step s as) := by
  induction as generalizing s with
  | nil => exact absurd trivial unguarded
  | cons a as ih =>
    by_cases ha : G s a
    · have hrest : ¬ Guarded step G (step s a) as := fun hrest => unguarded ⟨ha, hrest⟩
      exact ih (preserved s a h allowed.1 ha) allowed.2 hrest
    · rw [run_cons]
      exact invariant_run stays (left s a h allowed.1 ha) allowed.2

end Transitions
