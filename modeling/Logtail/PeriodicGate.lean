import Mathlib.Data.List.Induction
import Mathlib.Data.Int.Basic
import Mathlib.Algebra.Order.Group.Int

/-!
# A gate on the elapsed time

Calls come at irregular times, and one is carried out when the time since the start
is a multiple of the period. A call that is a whole period behind the last one
carried out should be carried out, too; it is exactly when somebody has called at
the first moment of its period.
-/

namespace PeriodicGate

structure Call where
  time : Int
  able : Bool

/-- The gate is open, and the action can be carried out. -/
def Fires (start period : Int) (c : Call) : Prop :=
  (c.time - start).tmod period = 0 ∧ c.able

instance (start period : Int) (c : Call) : Decidable (Fires start period c) :=
  inferInstanceAs (Decidable (_ ∧ _))

/-- The time of the last call carried out, or the start. -/
def last (start period : Int) (calls : List Call) : Int :=
  ((calls.filter fun c => Fires start period c).getLast?.map Call.time).getD start

/-- The first moment of the period that the time is in. -/
def slot (start period time : Int) : Int := start + period * ((time - start) / period)

/-- A call a whole period behind the last one carried out is carried out. -/
def Punctual (start period : Int) (past : List Call) (c : Call) : Prop :=
  period ≤ c.time - last start period past → Fires start period c

/-- A call behind the first period is at, or behind a call at, the first moment of its period
that can be carried out. -/
def InPhase (start period : Int) (past : List Call) (c : Call) : Prop :=
  start + period ≤ c.time → ∃ c' ∈ past ++ [c], c'.able ∧ c'.time = slot start period c.time

instance (start period : Int) (past : List Call) (c : Call) :
    Decidable (InPhase start period past c) :=
  inferInstanceAs (Decidable (_ → ∃ c' ∈ _, _))

/-- Times do not go back. -/
structure Ordered (start : Int) (calls : List Call) : Prop where
  sorted : calls.Pairwise fun c c' => c.time ≤ c'.time
  later : ∀ c ∈ calls, start ≤ c.time

section

variable {start period : Int} {past : List Call} {c : Call}

theorem last_concat (past : List Call) (c : Call) :
    last start period (past ++ [c]) =
      if Fires start period c then c.time else last start period past := by
  by_cases h : Fires start period c
  · simp [last, List.filter_append, h]
  · simp [last, List.filter_append, h]

theorem last_cases (start period : Int) (past : List Call) :
    last start period past = start ∨
      ∃ c ∈ past, Fires start period c ∧ c.time = last start period past := by
  induction past using List.reverseRecOn with
  | nil => exact Or.inl rfl
  | append_singleton past c ih =>
    rw [last_concat]
    split
    · rename_i h
      exact Or.inr ⟨c, by simp, h, rfl⟩
    · rcases ih with ih | ⟨c', hmem, hfires, htime⟩
      · exact Or.inl ih
      · exact Or.inr ⟨c', List.mem_append_left _ hmem, hfires, htime⟩

theorem ordered_concat (h : Ordered start past) (later : start ≤ c.time)
    (behind : ∀ c' ∈ past, c'.time ≤ c.time) : Ordered start (past ++ [c]) := by
  constructor
  · rw [List.pairwise_append]
    refine ⟨h.sorted, List.pairwise_singleton _ _, ?_⟩
    intro c' hc' c'' hc''
    rw [List.mem_singleton.mp hc'']
    exact behind c' hc'
  · intro c' hc'
    rcases List.mem_append.mp hc' with hc' | hc'
    · exact h.later c' hc'
    · rwa [List.mem_singleton.mp hc']

theorem start_le_last (period : Int) (h : Ordered start past) : start ≤ last start period past := by
  rcases last_cases start period past with hstart | ⟨c, hmem, -, htime⟩
  · exact hstart.ge
  · rw [← htime]
    exact h.later c hmem

theorem le_last (sorted : past.Pairwise fun c c' => c.time ≤ c'.time) (hmem : c ∈ past)
    (hfires : Fires start period c) : c.time ≤ last start period past := by
  induction past using List.reverseRecOn with
  | nil => cases hmem
  | append_singleton past d ih =>
    obtain ⟨hsorted, -, hbehind⟩ := List.pairwise_append.mp sorted
    rw [last_concat]
    rcases List.mem_append.mp hmem with hmem | hmem
    · split
      · exact hbehind c hmem d (List.mem_singleton_self d)
      · exact ih hsorted hmem
    · obtain rfl := List.mem_singleton.mp hmem
      rw [if_pos hfires]

theorem dvd_of_fires (h : Fires start period c) : period ∣ c.time - start :=
  Int.dvd_iff_tmod_eq_zero.mpr h.1

theorem dvd_last (start period : Int) (past : List Call) :
    period ∣ last start period past - start := by
  rcases last_cases start period past with hstart | ⟨c, -, hfires, htime⟩
  · rw [hstart, sub_self]
    exact Int.dvd_zero period
  · rw [← htime]
    exact dvd_of_fires hfires

theorem dvd_slot (start period time : Int) : period ∣ slot start period time - start :=
  ⟨(time - start) / period, by rw [slot]; omega⟩

theorem slot_le (start : Int) (positive : 0 < period) (time : Int) :
    slot start period time ≤ time := by
  have hle := Int.mul_ediv_self_le (x := time - start) positive.ne'
  rw [slot]
  omega

theorem lt_slot (start : Int) (positive : 0 < period) (time : Int) :
    time < slot start period time + period := by
  have hlt := Int.lt_mul_ediv_self_add (x := time - start) positive
  rw [slot]
  omega

/-- The only multiple between the first moment of its period and a time is the first moment. -/
theorem eq_slot (positive : 0 < period) {a time : Int} (hdvd : period ∣ a - start) (ha : a ≤ time)
    (hslot : slot start period time ≤ a) : a = slot start period time := by
  have hdiff : period ∣ a - slot start period time := by
    have hsub := Int.dvd_sub hdvd (dvd_slot start period time)
    rwa [sub_sub_sub_cancel_right] at hsub
  have hlt := lt_slot start positive time
  have hzero := Int.eq_zero_of_dvd_of_nonneg_of_lt (by omega) (by omega) hdiff
  omega

/-- A multiple in front of the first moment is a period in front of it. -/
theorem add_period_le_slot {a time : Int} (hdvd : period ∣ a - start)
    (ha : a < slot start period time) : a + period ≤ slot start period time := by
  have hdiff : period ∣ slot start period time - a := by
    have hsub := Int.dvd_sub (dvd_slot start period time) hdvd
    rwa [sub_sub_sub_cancel_right] at hsub
  have hle := Int.le_of_dvd (by omega) hdiff
  omega

theorem punctual_iff_inPhase (positive : 0 < period) (ordered : Ordered start past)
    (behind : ∀ c' ∈ past, c'.time ≤ c.time) :
    Punctual start period past c ↔ InPhase start period past c := by
  have hslot := slot_le start positive c.time
  have hlt := lt_slot start positive c.time
  have hstart := start_le_last period ordered
  have hfires : ∀ c' : Call, c'.able → c'.time = slot start period c.time →
      Fires start period c' := by
    intro c' hable htime
    refine ⟨Int.dvd_iff_tmod_eq_zero.mp ?_, hable⟩
    rw [htime]
    exact dvd_slot start period c.time
  constructor
  · intro hpunctual hbehind
    by_cases hlast : slot start period c.time ≤ last start period past
    · rcases last_cases start period past with heq | ⟨c', hmem, hfires', htime⟩
      · omega
      · refine ⟨c', List.mem_append_left _ hmem, hfires'.2, ?_⟩
        exact eq_slot positive (dvd_of_fires hfires') (behind c' hmem) (by omega)
    · have hperiod := add_period_le_slot (dvd_last start period past) (not_le.mp hlast)
      have hc := hpunctual (by omega)
      exact ⟨c, by simp, hc.2, eq_slot positive (dvd_of_fires hc) le_rfl hslot⟩
  · intro hphase hperiod
    obtain ⟨c', hmem, hable, htime⟩ := hphase (by omega)
    rcases List.mem_append.mp hmem with hmem | hmem
    · have hle := le_last ordered.sorted hmem (hfires c' hable htime)
      omega
    · obtain rfl := List.mem_singleton.mp hmem
      exact hfires c' hable htime

/-- Behind a punctual call the last one carried out is less than a period old. -/
theorem Punctual.fresh (positive : 0 < period) (h : Punctual start period past c) :
    c.time - last start period (past ++ [c]) < period := by
  rw [last_concat]
  split
  · omega
  · rename_i hnot
    by_contra hage
    exact hnot (h (not_lt.mp hage))

end

end PeriodicGate
