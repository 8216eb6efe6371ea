import Logtail.Backoff
import Logtail.Frames
import Logtail.BatchBound

/-!
# The two reconnect loops

`logtail_File` sets its wait and its total anew before each send.
`read_backupfile` declares them once for a whole call and does not initialize the
total, so that only the first outage of a call starts as it should, and that by
chance. The different cap tests make no difference.
-/

namespace ModelRead

open Framing FileStream ScribeSend Transitions Backoff

/-- The k-th wait of an outage, in seconds, counted from 0. -/
def law (k : Nat) : Int := min (5 * 2 ^ k) 320

def entry : Event → Option Entry
  | .outage => some .outage
  | .waited tM allNum => some (.waited tM allNum)
  | _ => none

/-- What the history tells of outages and waits. -/
def State.log (s : State) : List Entry := s.history.filterMap entry

/-- A call of `read_backupfile`: what its `all_num` holds at first, and how often it has waited. -/
structure BackupCall where
  allNum : Int
  waits : Nat

namespace BackupCall

def after (c : BackupCall) (s : State) : Act → BackupCall
  | .external _ => c
  | .thread ans =>
    match s.pc with
    | .readBackupfile (.reading _ _) => ⟨ans.garbage, 0⟩
    | .readBackupfile (.waiting _ _ _) =>
      if s.scribeInter.isOpen then c else { c with waits := c.waits + 1 }
    | _ => c

end BackupCall

/-- The thread, and the call of `read_backupfile` that it is in or was in last. -/
def watch (m : Config) (o : State × BackupCall) (a : Act) : State × BackupCall :=
  (step m o.1 a, o.2.after o.1 a)

/-- An outage in `read_backupfile` that has to wait is the first one of its call to do so, and
`all_num` happens to be 0. -/
def FirstOutage (o : State × BackupCall) : Act → Prop
  | .external _ => True
  | .thread _ => ∀ lastmsg tM allNum, o.1.pc = .readBackupfile (.waiting lastmsg tM allNum) →
      o.1.scribeInter.isOpen = false → current o.1.log = [] → o.2.waits = 0 ∧ o.2.allNum = 0

/-- `t_m` and `all_num` where they live in the line loop. -/
def carried : Pc → Option (Int × Int)
  | .readBackupfile (.splitting _ tM allNum) => some (tM, allNum)
  | .readBackupfile (.sending _ tM allNum) => some (tM, allNum)
  | .readBackupfile (.reopening _ tM allNum) => some (tM, allNum)
  | .readBackupfile (.waiting _ tM allNum) => some (tM, allNum)
  | _ => none

/-- The place is in none of the two reconnect loops. -/
def Pc.Busy : Pc → Prop
  | .logtailFile (.waiting _ _) => False
  | .readBackupfile (.waiting _ _ _) => False
  | _ => True

theorem law_logtail (k : Nat) : law k = wait (· ≥ 300) 5 k := by
  rw [wait_eq_min (m := 6) (by decide) (by decide) (by decide)]
  rfl

theorem law_backup (k : Nat) : law k = wait (· > 300) 5 k := by
  rw [wait_eq_min (m := 6) (by decide) (by decide) (by decide)]
  rfl

/-- Only the first wait is 5 seconds. -/
theorem law_eq_five_iff (k : Nat) : law k = 5 ↔ k = 0 := by
  constructor
  · intro h
    cases k with
    | zero => rfl
    | succ k =>
      have hpow : (0 : Int) < 2 ^ k := pow_pos (by decide) k
      rw [law, pow_succ] at h
      omega
  · rintro rfl
    rfl

theorem law_logtail_succ (k : Nat) :
    (if law k ≥ 300 then law k else 2 * law k) = law (k + 1) := by
  rw [law_logtail (k + 1), wait, ← law_logtail]
  rfl

theorem law_backup_succ (k : Nat) :
    (if law k > 300 then law k else 2 * law k) = law (k + 1) := by
  rw [law_backup (k + 1), wait, ← law_backup]
  rfl

/-- What one step of the thread can do to the log and to the waits and totals. -/
inductive Paces (ans : Answer) (s s' : State) : Prop where
  | quiet (log : s'.log = s.log) (busy : s'.pc.Busy)
      (locals : carried s'.pc = none ∨ carried s'.pc = carried s.pc)
      (call : ∀ c : BackupCall, c.after s (.thread ans) = c)
  | reading (log : s'.log = s.log) (busy : s'.pc.Busy)
      (locals : carried s'.pc = some (5, ans.garbage))
      (call : ∀ c : BackupCall, c.after s (.thread ans) = ⟨ans.garbage, 0⟩)
  | logtailOutage (log : s'.log = s.log ++ [.outage]) (pc : s'.pc = .logtailFile (.waiting 5 0))
      (call : ∀ c : BackupCall, c.after s (.thread ans) = c)
  | logtailWait (tM allNum : Int) (here : s.pc = .logtailFile (.waiting tM allNum))
      (log : s'.log = s.log ++ [.waited tM (allNum + tM)])
      (pc : s'.pc = .logtailFile
        (.waiting (if tM ≥ 300 then tM else 2 * tM) (allNum + tM)))
      (call : ∀ c : BackupCall, c.after s (.thread ans) = c)
  | backupOutage (lastmsg : Bytes) (tM allNum : Int)
      (here : carried s.pc = some (tM, allNum)) (log : s'.log = s.log ++ [.outage])
      (pc : s'.pc = .readBackupfile (.waiting lastmsg tM allNum))
      (call : ∀ c : BackupCall, c.after s (.thread ans) = c)
  | backupWait (lastmsg : Bytes) (tM allNum : Int)
      (here : s.pc = .readBackupfile (.waiting lastmsg tM allNum))
      (down : s.scribeInter.isOpen = false)
      (log : s'.log = s.log ++ [.waited tM (allNum + tM)])
      (pc : s'.pc = .readBackupfile
        (.waiting lastmsg (if tM > 300 then tM else 2 * tM) (allNum + tM)))
      (call : ∀ c : BackupCall, c.after s (.thread ans) = { c with waits := c.waits + 1 })

section

variable {s s' : State}

theorem log_of_history (h : s'.history = s.history) : s'.log = s.log := by
  rw [State.log, h, State.log]

theorem log_quiet {e : Event} (h : s'.history = s.history ++ [e]) (he : entry e = none) :
    s'.log = s.log := by
  rw [State.log, h, List.filterMap_append, List.filterMap_cons_none he, List.filterMap_nil,
    List.append_nil, State.log]

theorem log_entry {e : Event} {x : Entry} (h : s'.history = s.history ++ [e])
    (he : entry e = some x) : s'.log = s.log ++ [x] := by
  rw [State.log, h, List.filterMap_append, List.filterMap_cons_some he, List.filterMap_nil,
    State.log]

theorem log_send (s : State) (ans : Answer) : (s.send ans).log = s.log := by
  rw [State.log, State.send_history, List.filterMap_append, State.log]
  cases (s.scribeInter.send ans).2.2 <;> simp [entry]

theorem after_of_pc {ans : Answer} (hpc : ∀ place, s.pc ≠ .readBackupfile place) (c : BackupCall) :
    c.after s (.thread ans) = c := by
  cases hp : s.pc with
  | readBackupfile place => exact absurd hp (hpc place)
  | _ => simp [BackupCall.after, hp]

theorem paces_logtailFile (ans : Answer) {place : LogtailPc} (hpc : s.pc = .logtailFile place) :
    Paces ans s (logtailFile ans s place) := by
  have hcall : ∀ c : BackupCall, c.after s (.thread ans) = c := after_of_pc (by simp [hpc])
  cases place with
  | polling => exact .quiet rfl trivial (Or.inl rfl) hcall
  | checking =>
    simp only [logtailFile]
    split <;> exact .quiet rfl trivial (Or.inl rfl) hcall
  | sending =>
    simp only [logtailFile]
    split <;> exact .quiet (log_send s ans) trivial (Or.inl rfl) hcall
  | reopening => exact .logtailOutage (log_entry rfl rfl) rfl hcall
  | waiting tM allNum =>
    simp only [logtailFile]
    split
    · exact .quiet rfl trivial (Or.inl rfl) hcall
    · exact .logtailWait tM allNum hpc (log_entry rfl rfl) rfl hcall

theorem paces_stillGood (m : Config) (ans : Answer) {place : StillGoodPc}
    (hpc : s.pc = .stillGood place) : Paces ans s (stillGood m s place) := by
  have hcall : ∀ c : BackupCall, c.after s (.thread ans) = c := after_of_pc (by simp [hpc])
  cases place with
  | opening sleepM =>
    simp only [stillGood]
    split <;> exact .quiet rfl trivial (Or.inl rfl) hcall
  | comparing =>
    simp only [stillGood]
    split <;> exact .quiet rfl trivial (Or.inl rfl) hcall
  | telling =>
    refine .quiet (log_of_history ?_) trivial (Or.inl rfl) hcall
    simp [stillGood]

theorem paces_readBackupfile (m : Config) (ans : Answer) {place : BackupPc}
    (hpc : s.pc = .readBackupfile place) : Paces ans s (readBackupfile m ans s place) := by
  cases place with
  | opening =>
    simp only [readBackupfile]
    split <;> exact .quiet rfl trivial (Or.inl rfl) (by simp [BackupCall.after, hpc])
  | sizing ino =>
    simp only [readBackupfile]
    split <;> exact .quiet rfl trivial (Or.inl rfl) (by simp [BackupCall.after, hpc])
  | reading ino length =>
    exact .reading rfl trivial rfl (by simp [BackupCall.after, hpc])
  | splitting lastmsg tM allNum =>
    have hcall : ∀ c : BackupCall, c.after s (.thread ans) = c := by simp [BackupCall.after, hpc]
    simp only [readBackupfile]
    split
    · exact .quiet rfl trivial (Or.inl rfl) hcall
    · rename_i line rest hcut
      have hlog : (s.queue (backupEntry m line)).log = s.log :=
        log_quiet (State.queue_history s _) rfl
      split <;> exact .quiet hlog trivial (Or.inr (by rw [hpc]; rfl)) hcall
  | sending lastmsg tM allNum =>
    have hcall : ∀ c : BackupCall, c.after s (.thread ans) = c := by simp [BackupCall.after, hpc]
    simp only [readBackupfile]
    split <;> exact .quiet (log_send s ans) trivial (Or.inr (by rw [hpc]; rfl)) hcall
  | reopening lastmsg tM allNum =>
    exact .backupOutage lastmsg tM allNum (by rw [hpc]; rfl) (log_entry rfl rfl) rfl
      (by simp [BackupCall.after, hpc])
  | waiting lastmsg tM allNum =>
    simp only [readBackupfile]
    split
    · rename_i hup
      exact .quiet rfl trivial (Or.inr (by rw [hpc]; rfl)) (by simp [BackupCall.after, hpc, hup])
    · rename_i hdown
      exact .backupWait lastmsg tM allNum hpc (Bool.eq_false_iff.mpr hdown) (log_entry rfl rfl) rfl
        (by simp [BackupCall.after, hpc, hdown])

theorem paces_readLogFile (m : Config) (ans : Answer) {place : ReadPc}
    (hpc : s.pc = .readLogFile place) : Paces ans s (readLogFile m s place) := by
  have hcall : ∀ c : BackupCall, c.after s (.thread ans) = c := after_of_pc (by simp [hpc])
  cases place with
  | seeking => exact .quiet rfl trivial (Or.inl rfl) hcall
  | getline =>
    simp only [readLogFile]
    split
    · exact .quiet rfl trivial (Or.inl rfl) hcall
    · split
      · exact .quiet rfl trivial (Or.inl rfl) hcall
      · rename_i f hf temp f' hget
        have hlog : ∀ t : State, t.history = s.history ++ [.queued (liveEntry m temp)] →
            t.log = s.log := fun t ht => log_quiet ht rfl
        split
        · exact .quiet (hlog _ (by simp)) trivial (Or.inl rfl) hcall
        · refine .quiet (hlog _ (by simp)) ?_ (Or.inl ?_) hcall <;> simp [hpc, Pc.Busy, carried]
  | closing => exact .quiet rfl trivial (Or.inl rfl) hcall

theorem paces_writeCheckpoint (m : Config) (ans : Answer) {place : CheckpointPc}
    (hpc : s.pc = .writeCheckpoint place) : Paces ans s (writeCheckpoint m ans s place) := by
  have hcall : ∀ c : BackupCall, c.after s (.thread ans) = c := after_of_pc (by simp [hpc])
  cases place with
  | timing =>
    simp only [writeCheckpoint]
    split <;> exact .quiet rfl trivial (Or.inl rfl) hcall
  | writing tTime writeInfo =>
    exact .quiet (log_quiet rfl rfl) trivial (Or.inl rfl) hcall

theorem paces_thread (m : Config) (ans : Answer) (s : State) : Paces ans s (thread m ans s) := by
  apply thread_cases
  · exact fun place hpc => paces_logtailFile ans hpc
  · exact fun place hpc => paces_stillGood m ans hpc
  · exact fun place hpc => paces_readBackupfile m ans hpc
  · exact fun place hpc => paces_readLogFile m ans hpc
  · exact fun place hpc => paces_writeCheckpoint m ans hpc

end

/-- In `logtail_File` the locals are those of the outage. -/
def LogtailPaced (s : State) : Prop :=
  ∀ tM allNum, s.pc = .logtailFile (.waiting tM allNum) →
    tM = law (current s.log).length ∧ allNum = (current s.log).sum

/-- In `read_backupfile` they are those of the call, and in its first outage that has to wait
those of the outage, too. -/
structure Paced (o : State × BackupCall) : Prop where
  lawful : Lawful law o.1.log
  logtail : LogtailPaced o.1
  locals : ∀ tM allNum, carried o.1.pc = some (tM, allNum) →
    tM = law o.2.waits ∧ (o.2.waits = 0 → allNum = o.2.allNum)
  backup : ∀ lastmsg tM allNum, o.1.pc = .readBackupfile (.waiting lastmsg tM allNum) →
    current o.1.log ≠ [] → o.2.waits = (current o.1.log).length ∧ allNum = (current o.1.log).sum

section

variable {s s' : State} {c c' : BackupCall} {lastmsg : Bytes} {tM allNum : Int}

theorem logtailPaced_thread {ans : Answer} (h : LogtailPaced s) (hstep : Paces ans s s') :
    LogtailPaced s' := by
  intro tM allNum hpc
  cases hstep with
  | quiet log busy locals call =>
    rw [hpc] at busy
    exact False.elim busy
  | reading log busy locals call =>
    rw [hpc] at busy
    exact False.elim busy
  | logtailOutage log pc call =>
    cases pc.symm.trans hpc
    rw [log, current_outage]
    exact ⟨rfl, rfl⟩
  | logtailWait tM allNum here log pc call =>
    cases pc.symm.trans hpc
    obtain ⟨rfl, rfl⟩ := h tM allNum here
    rw [log, current_waited, List.length_append, List.sum_append, List.sum_singleton]
    exact ⟨law_logtail_succ _, rfl⟩
  | backupOutage lastmsg tM allNum here log pc call => cases pc.symm.trans hpc
  | backupWait lastmsg tM allNum here down log pc call => cases pc.symm.trans hpc

/-- The loop of `logtail_File` follows the law in every run. -/
theorem logtailPaced_always (m : Config) (fs : Fs) (checkpoint : Option Bytes) (position : Int)
    (oStat : Stat) (connected : Bool) (acts : List Act) :
    Always (step m) LogtailPaced (started fs checkpoint position oStat connected) acts := by
  refine invariant_always (I := LogtailPaced) ?_ nofun (guarded_true _ acts)
  rintro s a h -
  cases a with
  | external fs => exact h
  | thread ans => exact logtailPaced_thread h (paces_thread m ans s)

theorem paced_busy (lawful : Lawful law s.log) (logtail : LogtailPaced s) (busy : s.pc.Busy)
    (locals : ∀ tM allNum, carried s.pc = some (tM, allNum) →
      tM = law c.waits ∧ (c.waits = 0 → allNum = c.allNum)) : Paced (s, c) where
  lawful := lawful
  logtail := logtail
  locals := locals
  backup := by
    intro lastmsg tM allNum hpc
    rw [show s.pc = _ from hpc] at busy
    exact False.elim busy

theorem paced_logtail (lawful : Lawful law s.log) (logtail : LogtailPaced s)
    (hpc : s.pc = .logtailFile (.waiting tM allNum)) : Paced (s, c) where
  lawful := lawful
  logtail := logtail
  locals := by simp [hpc, carried]
  backup := by simp [hpc]

theorem paced_backup (lawful : Lawful law s.log) (logtail : LogtailPaced s)
    (hpc : s.pc = .readBackupfile (.waiting lastmsg tM allNum)) (wait : tM = law c.waits)
    (first : c.waits = 0 → allNum = c.allNum)
    (later : current s.log ≠ [] →
      c.waits = (current s.log).length ∧ allNum = (current s.log).sum) :
    Paced (s, c) where
  lawful := lawful
  logtail := logtail
  locals := by
    intro tM' allNum' hlocals
    rw [show s.pc = _ from hpc] at hlocals
    cases hlocals
    exact ⟨wait, first⟩
  backup := by
    intro lastmsg' tM' allNum' hpc'
    cases hpc.symm.trans hpc'
    exact later

/-- The locals of `read_backupfile` at a wait that the guard allows. -/
theorem Paced.due (h : Paced (s, c)) (hpc : s.pc = .readBackupfile (.waiting lastmsg tM allNum))
    (first : current s.log = [] → c.waits = 0 ∧ c.allNum = 0) :
    c.waits = (current s.log).length ∧ allNum = (current s.log).sum := by
  by_cases hcurrent : current s.log = []
  · obtain ⟨hwaits, hall⟩ := first hcurrent
    have hlocals := (h.locals tM allNum (by simp [hpc, carried])).2 hwaits
    simp [hcurrent, hwaits, hlocals, hall]
  · exact h.backup lastmsg tM allNum hpc hcurrent

theorem paced_thread {ans : Answer} (h : Paced (s, c)) (hstep : Paces ans s s')
    (first : FirstOutage (s, c) (.thread ans)) : Paced (s', c.after s (.thread ans)) := by
  have logtail := logtailPaced_thread h.logtail hstep
  cases hstep with
  | quiet log busy locals call =>
    rw [call]
    refine paced_busy (log ▸ h.lawful) logtail busy fun tM allNum hlocals => ?_
    rcases locals with hnone | hsame
    · rw [hnone] at hlocals
      cases hlocals
    · exact h.locals tM allNum (hsame ▸ hlocals)
  | reading log busy locals call =>
    rw [call]
    refine paced_busy (log ▸ h.lawful) logtail busy fun tM allNum hlocals => ?_
    cases locals.symm.trans hlocals
    exact ⟨rfl, fun _ => rfl⟩
  | logtailOutage log pc call => exact paced_logtail (log ▸ lawful_outage h.lawful) logtail pc
  | logtailWait tM allNum here log pc call =>
    obtain ⟨hwait, htotal⟩ := h.logtail tM allNum here
    refine paced_logtail ?_ logtail pc
    rw [log]
    exact lawful_waited_iff.mpr ⟨h.lawful, hwait, by rw [htotal]⟩
  | backupOutage lastmsg tM allNum here log pc call =>
    rw [call]
    obtain ⟨hwait, hfirst⟩ := h.locals tM allNum here
    refine paced_backup (log ▸ lawful_outage h.lawful) logtail pc hwait hfirst fun hne => ?_
    exact absurd (by rw [log, current_outage]) hne
  | backupWait lastmsg tM allNum here down log pc call =>
    rw [call]
    obtain ⟨hwait, -⟩ := h.locals tM allNum (by simp [here, carried])
    obtain ⟨hwaits, rfl⟩ := h.due here (first lastmsg tM allNum here down)
    have hlaw : tM = law (current s.log).length := hwaits ▸ hwait
    refine paced_backup ?_ logtail pc ?_ nofun fun _ => ?_
    · rw [log]
      exact lawful_waited_iff.mpr ⟨h.lawful, hlaw, rfl⟩
    · rw [hwait]
      exact law_backup_succ _
    · simp [log, hwaits]

theorem log_backupWait (m : Config) (ans : Answer)
    (hpc : s.pc = .readBackupfile (.waiting lastmsg tM allNum))
    (down : s.scribeInter.isOpen = false) :
    (thread m ans s).log = s.log ++ [.waited tM (allNum + tM)] := by
  rw [thread_readBackupfile m ans hpc]
  simp only [readBackupfile, down, Bool.false_eq_true, if_false]
  exact log_entry rfl rfl

/-- An outage that begins with the locals of another one, or with an indeterminate total, breaks
the law at its first wait. -/
theorem not_lawful_backupWait (m : Config) (ans : Answer) (h : Paced (s, c))
    (hpc : s.pc = .readBackupfile (.waiting lastmsg tM allNum))
    (down : s.scribeInter.isOpen = false) (begins : current s.log = [])
    (lawful : Lawful law (thread m ans s).log) : c.waits = 0 ∧ c.allNum = 0 := by
  rw [log_backupWait m ans hpc down, lawful_waited_iff, begins] at lawful
  obtain ⟨-, hwait, htotal⟩ := lawful
  obtain ⟨hlocal, hfirst⟩ := h.locals tM allNum (by simp [hpc, carried])
  have hwaits : c.waits = 0 := (law_eq_five_iff c.waits).mp (hlocal.symm.trans hwait)
  rw [← hfirst hwaits]
  rw [List.sum_nil] at htotal
  exact ⟨hwaits, by omega⟩

end

theorem paced_started (fs : Fs) (checkpoint : Option Bytes) (position : Int) (oStat : Stat)
    (connected : Bool) (c : BackupCall) :
    Paced (started fs checkpoint position oStat connected, c) :=
  paced_busy lawful_nil nofun trivial nofun

/-- In every run, every wait in either loop is the one that the law gives and every total the sum
for its outage, exactly when no outage in `read_backupfile` waits behind another one of the same
call or starts from another total than 0. -/
theorem lawful_iff_firstOutage (m : Config) (fs : Fs) (checkpoint : Option Bytes) (position : Int)
    (oStat : Stat) (connected : Bool) (acts : List Act) :
    Always (watch m) (fun o => Lawful law o.1.log)
        (started fs checkpoint position oStat connected, ⟨0, 0⟩) acts ↔
      Guarded (watch m) FirstOutage
        (started fs checkpoint position oStat connected, ⟨0, 0⟩) acts := by
  apply always_iff_guarded (I := Paced) (R := fun _ _ => True)
  · exact fun o h => h.lawful
  · rintro ⟨s, c⟩ a h - first
    cases a with
    | external fs => exact ⟨h.lawful, h.logtail, h.locals, h.backup⟩
    | thread ans => exact paced_thread h (paces_thread m ans s) first
  · rintro ⟨s, c⟩ a h - hnot lawful
    cases a with
    | external fs => exact hnot trivial
    | thread ans =>
      refine hnot fun lastmsg tM allNum hpc down begins => ?_
      exact not_lawful_backupWait m ans h hpc down begins lawful
  · exact paced_started fs checkpoint position oStat connected ⟨0, 0⟩
  · exact guarded_true _ acts

/-- The server refuses, and cannot be reached again. -/
def unreachable (garbage : Int) : Answer := { refusing with opens := false, garbage := garbage }

/-- Two outages of one wait each in one call, and one that starts with garbage. -/
def twoOutages : List Act :=
  List.replicate 10 (.thread (unreachable 0)) ++ .thread refusing ::
    List.replicate 5 (.thread (unreachable 0))

def garbageTotal : List Act := List.replicate 11 (.thread (unreachable 7))

/-- The second outage waits 10 seconds at once and reports 15; a first one reports 12 instead of
5. -/
theorem not_lawful_twoOutages :
    ¬ Always (watch singleModel) (fun o => Lawful law o.1.log)
        (started (twoFiles [97, newline, 98, newline, 99, newline] []) none 0 ⟨1, 6⟩ true, ⟨0, 0⟩)
        twoOutages ∧
      ¬ Always (watch singleModel) (fun o => Lawful law o.1.log)
        (started (twoFiles [97, newline, 98, newline] []) none 0 ⟨1, 4⟩ true, ⟨0, 0⟩)
        garbageTotal := by
  have hsecond : (run (watch singleModel)
      (started (twoFiles [97, newline, 98, newline, 99, newline] []) none 0 ⟨1, 6⟩ true, ⟨0, 0⟩)
      twoOutages).1.log = [.outage, .waited 5 5, .outage, .waited 10 15] := by decide
  have hgarbage : (run (watch singleModel)
      (started (twoFiles [97, newline, 98, newline] []) none 0 ⟨1, 4⟩ true, ⟨0, 0⟩)
      garbageTotal).1.log = [.outage, .waited 5 12] := by decide
  constructor
  · intro h
    have hwait := always_last h [.outage, .waited 5 5, .outage] 10 15 [] hsecond
    exact absurd hwait.1 (by decide)
  · intro h
    have hwait := always_last h [.outage] 5 12 [] hgarbage
    exact absurd hwait.2 (by decide)

end ModelRead
