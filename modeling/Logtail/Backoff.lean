import Mathlib.Algebra.Order.Ring.Int
import Mathlib.Data.List.Basic
import Mathlib.Tactic.Ring

/-!
# Doubling waits with a stop

A caller that finds the other side down waits, and waits twice as long the next
time until a stop test holds. Two tests that hold first at the same power of two
give the same waits. A log shows where an outage begins, and each wait with the
total that is reported behind it.
-/

namespace Backoff

section

variable (stops : Int → Prop) [DecidablePred stops] (first : Int)

/-- The wait behind a wait of `t`. -/
def next (t : Int) : Int := if stops t then t else 2 * t

/-- The waits of one outage, counted from 0. -/
def wait : Nat → Int
  | 0 => first
  | k + 1 => next stops (wait k)

variable {stops first} {m : Nat}

theorem wait_eq_pow (below : ∀ j < m, ¬ stops (first * 2 ^ j)) (holds : stops (first * 2 ^ m))
    (k : Nat) : wait stops first k = first * 2 ^ min k m := by
  induction k with
  | zero => simp [wait]
  | succ k ih =>
    rw [wait, ih, next]
    rcases Nat.lt_or_ge k m with hk | hk
    · have hmin : min (k + 1) m = k + 1 := by omega
      rw [Nat.min_eq_left (Nat.le_of_lt hk), if_neg (below k hk), hmin, pow_succ]
      ring
    · have hmin : min (k + 1) m = m := by omega
      rw [Nat.min_eq_right hk, if_pos holds, hmin]

theorem mul_pow_min (nonneg : 0 ≤ first) (k : Nat) :
    first * 2 ^ min k m = min (first * 2 ^ k) (first * 2 ^ m) := by
  have hmono : ∀ {i j : Nat}, i ≤ j → first * 2 ^ i ≤ first * 2 ^ j := fun hij =>
    Int.mul_le_mul_of_nonneg_left (pow_le_pow_right₀ (by decide) hij) nonneg
  rcases Nat.le_total k m with h | h
  · rw [Nat.min_eq_left h, min_eq_left (hmono h)]
  · rw [Nat.min_eq_right h, min_eq_right (hmono h)]

/-- The waits double up to the first one that stops them. -/
theorem wait_eq_min (nonneg : 0 ≤ first) (below : ∀ j < m, ¬ stops (first * 2 ^ j))
    (holds : stops (first * 2 ^ m)) (k : Nat) :
    wait stops first k = min (first * 2 ^ k) (first * 2 ^ m) := by
  rw [wait_eq_pow below holds, mul_pow_min nonneg]

end

/-- What a log keeps of a loop that waits. -/
inductive Entry where
  | outage
  | waited (t total : Int)
  deriving DecidableEq

/-- The waits since the last outage began. -/
def current (log : List Entry) : List Int :=
  log.foldl (fun waits => fun
    | .outage => []
    | .waited t _ => waits ++ [t]) []

@[simp] theorem current_nil : current [] = [] := rfl

@[simp] theorem current_outage (log : List Entry) : current (log ++ [.outage]) = [] := by
  simp [current]

@[simp] theorem current_waited (log : List Entry) (t total : Int) :
    current (log ++ [.waited t total]) = current log ++ [t] := by
  simp [current]

/-- The k-th wait of each outage is `law k`, and what is reported behind it is the sum of the
waits of that outage. -/
def Lawful (law : Nat → Int) (log : List Entry) : Prop :=
  ∀ before t total after, log = before ++ .waited t total :: after →
    t = law (current before).length ∧ total = (current before).sum + t

section

variable {law : Nat → Int} {log : List Entry}

theorem lawful_nil : Lawful law [] := by
  intro before t total after h
  simp at h

theorem lawful_of_append {later : List Entry} (h : Lawful law (log ++ later)) : Lawful law log := by
  rintro before t total after rfl
  exact h before t total (after ++ later) (by simp)

/-- An entry of a longer log is the new one, or it was there before. -/
theorem concat_eq {e e' : Entry} {before after : List Entry}
    (h : log ++ [e] = before ++ e' :: after) :
    (log = before ∧ e = e') ∨ ∃ rest, log = before ++ e' :: rest := by
  rcases List.eq_nil_or_concat' after with rfl | ⟨rest, last, rfl⟩
  · obtain ⟨hlog, hlast⟩ := List.append_inj' h rfl
    exact Or.inl ⟨hlog, List.singleton_inj.mp hlast⟩
  · rw [← List.cons_append, ← List.append_assoc] at h
    exact Or.inr ⟨rest, (List.append_inj' h rfl).1⟩

theorem lawful_outage (h : Lawful law log) : Lawful law (log ++ [.outage]) := by
  intro before t total after heq
  rcases concat_eq heq with ⟨-, hentry⟩ | ⟨rest, hlog⟩
  · cases hentry
  · exact h before t total rest hlog

theorem lawful_waited_iff {t total : Int} :
    Lawful law (log ++ [.waited t total]) ↔
      Lawful law log ∧ t = law (current log).length ∧ total = (current log).sum + t := by
  constructor
  · intro h
    exact ⟨lawful_of_append h, h log t total [] rfl⟩
  · rintro ⟨h, hwait⟩ before t' total' after heq
    rcases concat_eq heq with ⟨rfl, hentry⟩ | ⟨rest, hlog⟩
    · cases hentry
      exact hwait
    · exact h before t' total' rest hlog

end

end Backoff
