import Logtail.Recovery
import Logtail.PeriodicGate

/-!
# The age of the record

`write_checkpoint` writes when the seconds since the start are a multiple of
`checkpoint_time`, and only then. The calls come when the loop gets there, so a
multiple is met by chance.
-/

namespace ModelRead

open Framing FileStream ScribeSend Checkpoint Transitions PeriodicGate

/-- The call of `write_checkpoint` that the step begins. -/
def called (s : State) : Act → List Call
  | .thread ans =>
    match s.pc with
    | .writeCheckpoint .timing => [⟨ans.clock, ans.writable⟩]
    | _ => []
  | .external _ => []

/-- The thread, and the calls it has made so far. -/
def observe (m : Config) (o : State × List Call) (a : Act) : State × List Call :=
  (step m o.1 a, o.2 ++ called o.1 a)

def rewrittenIn (history : List Event) : List Int :=
  history.filterMap fun
    | .rewritten tTime => some tTime
    | _ => none

/-- The time of the last rewrite, or of `setModeltime`. -/
def lastRewrite (m : Config) (s : State) : Int := (rewrittenIn s.history).getLast?.getD m.now

/-- The call that this answer begins writes the current position, and nothing is written
otherwise. -/
def Rewrites (m : Config) (s : State) (ans : Answer) : Prop :=
  ∀ ans' between,
    (run (step m) s (writeActs ans ans' between)).checkpoint =
      some (checkpointLine ans.clock s.position m.path) ∧
    (run (step m) s (writeActs ans ans' between)).history = s.history ++ [.rewritten ans.clock]

/-- A call of `write_checkpoint` that comes `checkpoint_time` or more behind the last rewrite
rewrites the record. -/
def RewritesInTime (m : Config) (o : State × List Call) : Act → Prop
  | .thread ans => o.1.pc = .writeCheckpoint .timing →
      m.checkpointTime ≤ ans.clock - lastRewrite m o.1 → Rewrites m o.1 ans
  | .external _ => True

/-- When `write_checkpoint` has returned, the record is younger than `checkpoint_time`. -/
def Fresh (m : Config) (o : State × List Call) : Prop :=
  o.1.pc = .readLogFile .closing →
    ∀ c ∈ o.2.getLast?, c.time - lastRewrite m o.1 < m.checkpointTime

/-- The clock does not go back between calls, nor behind `setModeltime`. -/
def Clock (m : Config) (o : State × List Call) (a : Act) : Prop :=
  ∀ c ∈ called o.1 a, m.now ≤ c.time ∧ ∀ c' ∈ o.2, c'.time ≤ c.time

/-- Every period of `checkpoint_time` from the second on, if there is a call in it, has a call
at its first second that can open the file, before any other. -/
def CallsInPhase (m : Config) (o : State × List Call) (a : Act) : Prop :=
  ∀ c ∈ called o.1 a, InPhase m.now m.checkpointTime o.2 c

instance (m : Config) (o : State × List Call) (a : Act) : Decidable (Clock m o a) :=
  inferInstanceAs (Decidable (∀ c ∈ called o.1 a, _ ∧ ∀ c' ∈ o.2, _))

instance (m : Config) (o : State × List Call) (a : Act) : Decidable (CallsInPhase m o a) :=
  inferInstanceAs (Decidable (∀ c ∈ called o.1 a, InPhase _ _ _ _))

section

variable {m : Config} {s : State} {ans : Answer}

theorem called_timing (ans : Answer) (hpc : s.pc = .writeCheckpoint .timing) :
    called s (.thread ans) = [⟨ans.clock, ans.writable⟩] := by
  simp [called, hpc]

theorem called_other (hpc : s.pc ≠ .writeCheckpoint .timing) (a : Act) : called s a = [] := by
  cases a with
  | external fs => rfl
  | thread ans =>
    cases hp : s.pc with
    | writeCheckpoint place =>
      cases place with
      | timing => exact absurd hp hpc
      | writing tTime writeInfo => simp only [called, hp]
    | _ => simp only [called, hp]

/-- A call either opens the file or returns at once. -/
theorem thread_timing (m : Config) (ans : Answer) (hpc : s.pc = .writeCheckpoint .timing) :
    (Fires m.now m.checkpointTime ⟨ans.clock, ans.writable⟩ ∧
      thread m ans s = { s with checkpoint := some [] }.goto (.writeCheckpoint
        (.writing ans.clock (checkpointLine ans.clock s.position m.path)))) ∨
    (¬ Fires m.now m.checkpointTime ⟨ans.clock, ans.writable⟩ ∧
      thread m ans s = s.goto (.readLogFile .closing)) := by
  rw [thread_writeCheckpoint m ans hpc]
  simp only [writeCheckpoint, Fires]
  split
  · rename_i h
    exact Or.inl ⟨h, rfl⟩
  · rename_i h
    exact Or.inr ⟨h, rfl⟩

theorem rewrites_iff_fires (hpc : s.pc = .writeCheckpoint .timing) :
    Rewrites m s ans ↔ Fires m.now m.checkpointTime ⟨ans.clock, ans.writable⟩ := by
  rcases thread_timing m ans hpc with ⟨hfires, hstep⟩ | ⟨hnot, hstep⟩
  · refine ⟨fun _ => hfires, fun _ ans' between => ?_⟩
    obtain ⟨fs, hrun⟩ := external_run (m := m) between (step m s (.thread ans))
    rw [writeActs, run_cons, run_append, hrun, step, hstep]
    exact ⟨rfl, rfl⟩
  · refine ⟨fun h => ?_, fun h => absurd h hnot⟩
    have hhistory := (h ans []).2
    rw [writeActs, run_cons, step, hstep] at hhistory
    have hlen := congrArg List.length hhistory
    rw [List.length_append] at hlen
    exact absurd hlen (Nat.ne_of_lt (Nat.lt_succ_self _))

theorem rewrittenIn_append (history events : List Event) :
    rewrittenIn (history ++ events) = rewrittenIn history ++ rewrittenIn events :=
  List.filterMap_append

theorem rewrittenIn_eq_nil {events : List Event} (h : ∀ tTime, Event.rewritten tTime ∉ events) :
    rewrittenIn events = [] := by
  rw [rewrittenIn, List.filterMap_eq_nil_iff]
  intro e he
  cases e with
  | rewritten tTime => exact absurd he (h tTime)
  | _ => rfl

theorem lastRewrite_frame {s' : State} (h : Frame s s') : lastRewrite m s' = lastRewrite m s := by
  obtain ⟨events, hevents, hnone⟩ := h.history
  rw [lastRewrite, lastRewrite, hevents, rewrittenIn_append, rewrittenIn_eq_nil hnone,
    List.append_nil]

end

/-- The gate knows the time of the last rewrite, or of the one in progress. -/
structure Watched (m : Config) (o : State × List Call) : Prop where
  ordered : Ordered m.now o.2
  writing : ∀ tTime writeInfo, o.1.pc = .writeCheckpoint (.writing tTime writeInfo) →
    last m.now m.checkpointTime o.2 = tTime
  written : (∀ tTime writeInfo, o.1.pc ≠ .writeCheckpoint (.writing tTime writeInfo)) →
    last m.now m.checkpointTime o.2 = lastRewrite m o.1

theorem watched_started (m : Config) (fs : Fs) (checkpoint : Option Bytes) (position : Int)
    (oStat : Stat) (connected : Bool) :
    Watched m (started fs checkpoint position oStat connected, []) := by
  refine ⟨⟨List.Pairwise.nil, nofun⟩, nofun, fun _ => rfl⟩

section

variable {m : Config} {s : State} {past : List Call} {ans : Answer}

/-- A call. The gate takes it for carried out when the file is opened, the history when it is
written. -/
theorem watched_call (h : Watched m (s, past)) (hpc : s.pc = .writeCheckpoint .timing)
    (ordered : Ordered m.now (past ++ [⟨ans.clock, ans.writable⟩])) :
    Watched m (thread m ans s, past ++ [⟨ans.clock, ans.writable⟩]) := by
  rcases thread_timing m ans hpc with ⟨hfires, hstep⟩ | ⟨hnot, hstep⟩
  · rw [hstep]
    refine ⟨ordered, ?_, fun hne => absurd rfl (hne _ _)⟩
    rintro tTime writeInfo hwriting
    rw [last_concat, if_pos hfires]
    cases hwriting
    rfl
  · rw [hstep]
    refine ⟨ordered, by simp, fun _ => ?_⟩
    rw [last_concat, if_neg hnot]
    exact h.written (by simp [hpc])

theorem watched_thread (h : Watched m (s, past)) (hpc : s.pc ≠ .writeCheckpoint .timing) :
    Watched m (thread m ans s, past) := by
  by_cases hcheckpoint : ∃ place, s.pc = .writeCheckpoint place
  · obtain ⟨place, hplace⟩ := hcheckpoint
    cases place with
    | timing => exact absurd hplace hpc
    | writing tTime writeInfo =>
      have hlast := h.writing tTime writeInfo hplace
      rw [thread_writeCheckpoint m ans hplace]
      refine ⟨h.ordered, by simp [writeCheckpoint], fun _ => hlast.trans ?_⟩
      simp [lastRewrite, writeCheckpoint, rewrittenIn]
  · have hframe := frame_thread m ans (not_exists.mp hcheckpoint)
    refine ⟨h.ordered, fun tTime writeInfo hwriting => ?_, fun _ => ?_⟩
    · exact absurd hwriting (hframe.pc tTime writeInfo)
    · rw [lastRewrite_frame hframe]
      exact h.written fun tTime writeInfo hwriting => hcheckpoint ⟨_, hwriting⟩

end

theorem watched_step {m : Config} {o : State × List Call} {a : Act} (h : Watched m o)
    (clock : Clock m o a) : Watched m (observe m o a) := by
  obtain ⟨s, past⟩ := o
  cases a with
  | external fs =>
    simp only [observe, step, called, List.append_nil]
    exact ⟨h.ordered, h.writing, h.written⟩
  | thread ans =>
    by_cases htiming : s.pc = .writeCheckpoint .timing
    · have hclock := clock ⟨ans.clock, ans.writable⟩ (by simp [called_timing ans htiming])
      simp only [observe, step, called_timing ans htiming]
      exact watched_call h htiming (ordered_concat h.ordered hclock.1 hclock.2)
    · simp only [observe, step, called_other htiming, List.append_nil]
      exact watched_thread h htiming

/-- One call: it is in time exactly when it is in phase. -/
theorem rewritesInTime_iff {m : Config} (positive : 0 < m.checkpointTime) {o : State × List Call}
    {a : Act} (h : Watched m o) (clock : Clock m o a) :
    RewritesInTime m o a ↔ CallsInPhase m o a := by
  cases a with
  | external fs => simp [RewritesInTime, CallsInPhase, called]
  | thread ans =>
    by_cases htiming : o.1.pc = .writeCheckpoint .timing
    · have hcalled := called_timing ans htiming
      have hmem : (⟨ans.clock, ans.writable⟩ : Call) ∈ called o.1 (.thread ans) := by
        rw [hcalled]
        exact List.mem_singleton_self _
      obtain ⟨-, hbehind⟩ := clock _ hmem
      have hlast := h.written (by simp [htiming])
      rw [CallsInPhase, hcalled, List.forall_mem_singleton,
        ← punctual_iff_inPhase positive h.ordered hbehind, Punctual, hlast, RewritesInTime,
        rewrites_iff_fires htiming]
      exact ⟨fun hlaw => hlaw htiming, fun hlaw _ => hlaw⟩
    · simp [RewritesInTime, CallsInPhase, called_other htiming, htiming]

/-- The last call has found, or made, a record younger than `checkpoint_time`. -/
def Young (m : Config) (o : State × List Call) : Prop :=
  ∀ c ∈ o.2.getLast?, c.time - last m.now m.checkpointTime o.2 < m.checkpointTime

theorem young_step {m : Config} (positive : 0 < m.checkpointTime) {o : State × List Call} {a : Act}
    (h : Watched m o) (hyoung : Young m o) (inTime : RewritesInTime m o a) :
    Young m (observe m o a) := by
  cases a with
  | external fs => simpa only [Young, observe, called, List.append_nil] using hyoung
  | thread ans =>
    by_cases htiming : o.1.pc = .writeCheckpoint .timing
    · have hlast := h.written (by simp [htiming])
      have hpunctual : Punctual m.now m.checkpointTime o.2 ⟨ans.clock, ans.writable⟩ := by
        intro hperiod
        rw [hlast] at hperiod
        exact (rewrites_iff_fires htiming).mp (inTime htiming hperiod)
      intro c hc
      simp only [observe, called_timing ans htiming, List.getLast?_concat, Option.mem_def,
        Option.some.injEq] at hc ⊢
      rw [← hc]
      exact hpunctual.fresh positive
    · simpa only [Young, observe, called_other htiming, List.append_nil] using hyoung

theorem Watched.fresh {m : Config} {o : State × List Call} (h : Watched m o) (hyoung : Young m o) :
    Fresh m o := by
  intro hpc c hc
  rw [← h.written (by simp [hpc])]
  exact hyoung c hc

/-- For every positive `checkpoint_time` and every run whose clock does not go back: each call
that comes `checkpoint_time` behind the last rewrite rewrites the record, and so the record is
younger than that after each call, exactly when the calls are in phase. -/
theorem staleness_iff_inPhase (m : Config) (positive : 0 < m.checkpointTime) (fs : Fs)
    (checkpoint : Option Bytes) (position : Int) (oStat : Stat) (connected : Bool) (acts : List Act)
    (clock : Guarded (observe m) (Clock m)
      (started fs checkpoint position oStat connected, []) acts) :
    (Guarded (observe m) (RewritesInTime m)
        (started fs checkpoint position oStat connected, []) acts ∧
      Always (observe m) (Fresh m) (started fs checkpoint position oStat connected, []) acts) ↔
    Guarded (observe m) (CallsInPhase m)
      (started fs checkpoint position oStat connected, []) acts := by
  have hwatched := watched_started m fs checkpoint position oStat connected
  have hiff := guarded_iff_guarded (fun o a h hclock _ => watched_step h hclock)
    (fun o a h hclock => rewritesInTime_iff positive h hclock) hwatched clock
  refine ⟨fun h => hiff.mp h.1, fun h => ⟨hiff.mpr h, ?_⟩⟩
  have hboth := guarded_and clock (hiff.mpr h)
  refine always_mono (fun o ho => Watched.fresh ho.1 ho.2)
    (invariant_always (I := fun o => Watched m o ∧ Young m o) ?_ ⟨hwatched, nofun⟩ hboth)
  rintro o a ⟨ho, hyoung⟩ ⟨hclock, inTime⟩
  exact ⟨watched_step ho hclock, young_step positive ho hyoung inTime⟩

/-- The first call comes at the first second of the second period. -/
theorem staleness_inPhase :
    Always (observe (shortModel .cxx11)) (Fresh (shortModel .cxx11))
      (started (oneFile 7 []) none 0 ⟨7, 0⟩ true, []) (List.replicate 8 (.thread (allWell 5))) := by
  refine ((staleness_iff_inPhase (shortModel .cxx11) (by decide) (oneFile 7 []) none 0 ⟨7, 0⟩ true
    (List.replicate 8 (.thread (allWell 5))) ?_).mpr ?_).2
  · exact ⟨nofun, nofun, nofun, nofun, nofun, by decide, nofun, nofun, trivial⟩
  · exact ⟨nofun, nofun, nofun, nofun, nofun, by decide, nofun, nofun, trivial⟩

/-- The first call comes a second later, and does not write. -/
theorem not_staleness_outOfPhase :
    Guarded (observe (shortModel .cxx11)) (Clock (shortModel .cxx11))
        (started (oneFile 7 []) none 0 ⟨7, 0⟩ true, []) (List.replicate 6 (.thread (allWell 6))) ∧
      ¬ Guarded (observe (shortModel .cxx11)) (RewritesInTime (shortModel .cxx11))
        (started (oneFile 7 []) none 0 ⟨7, 0⟩ true, []) (List.replicate 6 (.thread (allWell 6))) ∧
      ¬ Always (observe (shortModel .cxx11)) (Fresh (shortModel .cxx11))
        (started (oneFile 7 []) none 0 ⟨7, 0⟩ true, [])
        (List.replicate 6 (.thread (allWell 6))) := by
  refine ⟨⟨nofun, nofun, nofun, nofun, nofun, by decide, trivial⟩, ?_, ?_⟩
  · rintro ⟨-, -, -, -, -, hcall, -⟩
    have hrewrites := hcall rfl (by decide)
    exact absurd ((rewrites_iff_fires rfl).mp hrewrites) (by decide)
  · intro h
    have hage := always_last h rfl ⟨6, true⟩ rfl
    exact absurd hage (by decide)

end ModelRead
