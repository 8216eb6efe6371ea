import Logtail.BackupRead

/-!
# The size of a batch

`max_send_msg` is documented as the number of entries that are sent at once. Both
loops test it behind the push, `read_backupfile` with `>`, and a failed send
leaves the batch as it is. A batch that `read_backupfile` sends is too large
already; one that `logtail_File` sends is, when the poll began with a full batch
and found a line.
-/

namespace ModelRead

open Framing FileStream ScribeSend Transitions

/-- Neither the batch nor one that has been passed to `Log` is larger than
`max_send_msg`. -/
structure Bounded (m : Config) (s : State) : Prop where
  pending : s.scribeInter.messages.length ≤ m.maxSendMsg
  logged : ∀ batch outcome, Event.logged batch outcome ∈ s.history →
    batch.length ≤ m.maxSendMsg

/-- The next step of the thread finds a line to push. -/
def findsLine (s : State) : Bool :=
  match s.pc with
  | .readLogFile .getline => s.logreadfile.any fun f => (f.getline (s.fs.file f.ino)).1.isSome
  | .readBackupfile (.splitting lastmsg _ _) => newline ∈ lastmsg
  | _ => false

/-- No line is found while the batch is full. -/
def RoomForLine (m : Config) (s : State) : Act → Prop
  | .thread _ => findsLine s → s.scribeInter.messages.length < m.maxSendMsg
  | .external _ => True

/-- What a step without a new line does to the batch and to the calls of `Log`. -/
structure Holds (s s' : State) : Prop where
  pending : s'.scribeInter.messages.length ≤ s.scribeInter.messages.length
  logged : ∀ batch outcome, Event.logged batch outcome ∈ s'.history →
    Event.logged batch outcome ∈ s.history ∨ batch = s.scribeInter.messages

/-- What a step with a new line does to them. -/
structure Grows (s s' : State) : Prop where
  pending : s'.scribeInter.messages.length = s.scribeInter.messages.length + 1
  logged : ∀ batch outcome, Event.logged batch outcome ∈ s'.history →
    Event.logged batch outcome ∈ s.history

section

variable {m : Config} {s s' : State} {ans : Answer}

theorem holds_of_eq (hmessages : s'.scribeInter.messages = s.scribeInter.messages)
    (hhistory : s'.history = s.history) : Holds s s' where
  pending := by rw [hmessages]
  logged := by
    rw [hhistory]
    exact fun _ _ h => Or.inl h

theorem holds_event {e : Event} (hmessages : s'.scribeInter.messages = s.scribeInter.messages)
    (hhistory : s'.history = s.history ++ [e]) (he : ∀ batch outcome, e ≠ .logged batch outcome) :
    Holds s s' where
  pending := by rw [hmessages]
  logged := by
    intro batch outcome h
    rw [hhistory, List.mem_append, List.mem_singleton] at h
    rcases h with h | h
    · exact Or.inl h
    · exact absurd h.symm (he batch outcome)

/-- Both send sites, whether the batch is kept or cleared. -/
theorem holds_send (ans : Answer)
    (hmessages : s'.scribeInter.messages.length ≤ s.scribeInter.messages.length)
    (hhistory : s'.history = (s.send ans).history) : Holds s s' where
  pending := hmessages
  logged := by
    intro batch outcome h
    rw [hhistory, State.send_history, List.mem_append] at h
    rcases h with h | h
    · exact Or.inl h
    · cases ho : (s.scribeInter.send ans).2.2 with
      | none => simp [ho] at h
      | some result =>
        simp only [ho, Option.map_some, Option.toList_some, List.mem_singleton,
          Event.logged.injEq] at h
        exact Or.inr h.1

theorem holds_logtailFile (ans : Answer) (s : State) (place : LogtailPc) :
    Holds s (logtailFile ans s place) := by
  cases place with
  | polling => exact holds_of_eq rfl rfl
  | checking =>
    simp only [logtailFile]
    split <;> exact holds_of_eq rfl rfl
  | sending =>
    simp only [logtailFile]
    split
    · exact holds_send ans (by simp) rfl
    · exact holds_send ans (by simp) rfl
  | reopening => exact holds_event rfl rfl (by simp)
  | waiting tM allNum =>
    simp only [logtailFile]
    split
    · exact holds_of_eq rfl rfl
    · exact holds_event rfl rfl (by simp)

theorem holds_stillGood (m : Config) (s : State) (place : StillGoodPc) :
    Holds s (stillGood m s place) := by
  cases place with
  | opening sleepM =>
    simp only [stillGood]
    split <;> exact holds_of_eq rfl rfl
  | comparing =>
    simp only [stillGood]
    split <;> exact holds_of_eq rfl rfl
  | telling => exact holds_of_eq (by simp [stillGood]) (by simp [stillGood])

theorem holds_readBackupfile {place : BackupPc} (hpc : s.pc = .readBackupfile place)
    (hnone : ¬ findsLine s) : Holds s (readBackupfile m ans s place) := by
  cases place with
  | opening =>
    simp only [readBackupfile]
    split <;> exact holds_of_eq rfl rfl
  | sizing ino =>
    simp only [readBackupfile]
    split <;> exact holds_of_eq rfl rfl
  | reading ino length => exact holds_of_eq rfl rfl
  | splitting lastmsg tM allNum =>
    simp only [findsLine, hpc, decide_eq_true_eq] at hnone
    simp only [readBackupfile, (cut_eq_none_iff newline lastmsg).mpr hnone]
    exact holds_of_eq rfl rfl
  | sending lastmsg tM allNum =>
    simp only [readBackupfile]
    split
    · exact holds_send ans (by simp) rfl
    · exact holds_send ans (by simp) rfl
  | reopening lastmsg tM allNum => exact holds_event rfl rfl (by simp)
  | waiting lastmsg tM allNum =>
    simp only [readBackupfile]
    split
    · exact holds_of_eq rfl rfl
    · exact holds_event rfl rfl (by simp)

theorem holds_readLogFile {place : ReadPc} (hpc : s.pc = .readLogFile place)
    (hnone : ¬ findsLine s) : Holds s (readLogFile m s place) := by
  cases place with
  | seeking => exact holds_of_eq rfl rfl
  | getline =>
    cases hf : s.logreadfile with
    | none =>
      simp only [readLogFile, hf]
      exact holds_of_eq rfl rfl
    | some f =>
      cases hget : f.getline (s.fs.file f.ino) with
      | mk temp f' =>
        cases temp with
        | none =>
          simp only [readLogFile, hf, hget]
          exact holds_of_eq rfl rfl
        | some temp => simp [findsLine, hpc, hf, hget] at hnone
  | closing => exact holds_of_eq rfl rfl

theorem holds_writeCheckpoint (m : Config) (ans : Answer) (s : State) (place : CheckpointPc) :
    Holds s (writeCheckpoint m ans s place) := by
  cases place with
  | timing =>
    simp only [writeCheckpoint]
    split <;> exact holds_of_eq rfl rfl
  | writing tTime writeInfo => exact holds_event rfl rfl (by simp)

theorem holds_thread (m : Config) (ans : Answer) (hnone : ¬ findsLine s) :
    Holds s (thread m ans s) := by
  apply thread_cases
  · exact fun place _ => holds_logtailFile ans s place
  · exact fun place _ => holds_stillGood m s place
  · exact fun place hp => holds_readBackupfile hp hnone
  · exact fun place hp => holds_readLogFile hp hnone
  · exact fun place _ => holds_writeCheckpoint m ans s place

theorem grows_queue (le : LogEntry)
    (hmessages : s'.scribeInter.messages = s.scribeInter.messages ++ [le])
    (hhistory : s'.history = s.history ++ [.queued le]) : Grows s s' where
  pending := by rw [hmessages, List.length_append, List.length_singleton]
  logged := by
    intro batch outcome h
    simpa [hhistory] using h

theorem grows_thread (m : Config) (ans : Answer) (hline : findsLine s) :
    Grows s (thread m ans s) := by
  unfold findsLine at hline
  split at hline
  · rename_i hpc
    obtain ⟨f, hf, hsome⟩ := (Option.any_eq_true _ _).mp hline
    obtain ⟨temp, htemp⟩ := Option.isSome_iff_exists.mp hsome
    rw [thread_readLogFile m ans hpc]
    cases hget : f.getline (s.fs.file f.ino) with
    | mk temp' f' =>
      obtain rfl : temp' = some temp := by rw [← htemp, hget]
      simp only [readLogFile, hf, hget]
      split
      · exact grows_queue (liveEntry m temp) (by simp) (by simp)
      · exact grows_queue (liveEntry m temp) (by simp) (by simp)
  · rename_i lastmsg tM allNum hpc
    rw [thread_readBackupfile m ans hpc]
    cases hcut : cut newline lastmsg with
    | none => exact absurd (of_decide_eq_true hline) ((cut_eq_none_iff newline lastmsg).mp hcut)
    | some p =>
      obtain ⟨line, rest⟩ := p
      simp only [readBackupfile, hcut]
      split
      · exact grows_queue (backupEntry m line) rfl rfl
      · exact grows_queue (backupEntry m line) rfl rfl
  · cases hline

end

section

variable {m : Config} {s : State}

/-- With room for the line, or without a line, the bound is kept. -/
theorem bounded_step (h : Bounded m s) {a : Act} (room : RoomForLine m s a) :
    Bounded m (step m s a) := by
  cases a with
  | external fs => exact ⟨h.pending, h.logged⟩
  | thread ans =>
    by_cases hline : findsLine s
    · have hgrows := grows_thread m ans hline
      have hroom := room hline
      refine ⟨?_, fun batch outcome hb => h.logged batch outcome (hgrows.logged batch outcome hb)⟩
      have hlen := hgrows.pending
      simp only [step]
      omega
    · have hholds := holds_thread m ans hline
      have hlen := hholds.pending
      have hpending := h.pending
      constructor
      · simp only [step]
        omega
      · intro batch outcome hb
        rcases hholds.logged batch outcome hb with hb | rfl
        · exact h.logged batch outcome hb
        · exact hpending

/-- A line for a full batch makes it larger than `max_send_msg`. -/
theorem not_bounded_of_full {a : Act} (full : ¬ RoomForLine m s a) : ¬ Bounded m (step m s a) := by
  cases a with
  | external fs => exact absurd trivial full
  | thread ans =>
    intro hbounded
    have hfull : findsLine s ∧ m.maxSendMsg ≤ s.scribeInter.messages.length := by
      simpa [RoomForLine] using full
    have hlen := (grows_thread m ans hfull.1).pending
    have hpending := hbounded.pending
    simp only [step] at hpending
    omega

end

theorem bounded_started {m : Config} (positive : 0 < m.maxSendMsg) (fs : Fs)
    (checkpoint : Option Bytes) (position : Int) (oStat : Stat) (connected : Bool) :
    Bounded m (started fs checkpoint position oStat connected) where
  pending := by
    simp only [started, List.length_nil]
    omega
  logged := by
    intro batch outcome h
    cases h

/-- What the loops leave to chance: a `getline` for a full batch finds no line, and
the lines that `read_backupfile` has read have room in the batch. -/
def LinesFit (m : Config) (s : State) : Act → Prop
  | .thread ans =>
    match s.pc with
    | .readLogFile .getline => findsLine s → s.scribeInter.messages.length < m.maxSendMsg
    | .readBackupfile (.reading ino length) =>
      s.scribeInter.messages.length +
        (cString (buffer (s.fs.file ino) ans.memory s.position length)).count newline ≤
          m.maxSendMsg
    | _ => True
  | .external _ => True

/-- The lines of the backup file that are not split off yet have room. -/
def Roomy (m : Config) (s : State) : Prop :=
  ∀ place lastmsg, s.pc = .readBackupfile place → unsplit place = some lastmsg →
    s.scribeInter.messages.length + lastmsg.count newline ≤ m.maxSendMsg

structure Fitting (m : Config) (s : State) : Prop where
  bounded : Bounded m s
  roomy : Roomy m s

theorem count_line {line : Bytes} (h : newline ∉ line) (rest : Bytes) :
    (line ++ newline :: rest).count newline = rest.count newline + 1 := by
  rw [List.count_append, List.count_eq_zero_of_not_mem h, List.count_cons_self, Nat.zero_add]

section

variable {m : Config} {s : State} {ans : Answer}

theorem roomForLine_of_linesFit (h : Fitting m s) {a : Act} (fits : LinesFit m s a) :
    RoomForLine m s a := by
  cases a with
  | external fs => trivial
  | thread ans =>
    intro hline
    unfold findsLine at hline
    split at hline
    · rename_i hpc
      simp only [LinesFit, hpc] at fits
      exact fits (by simpa only [findsLine, hpc] using hline)
    · rename_i lastmsg tM allNum hpc
      have hroom := h.roomy _ lastmsg hpc rfl
      have hcount := List.count_pos_iff.mpr (of_decide_eq_true hline)
      omega
    · cases hline

/-- In the functions other than `read_backupfile` nothing is left to be split off. -/
theorem roomy_of_pc (hpc : ∀ place, s.pc = .readBackupfile place → unsplit place = none) :
    Roomy m s := by
  intro place lastmsg hp hun
  rw [hpc place hp] at hun
  cases hun

theorem roomy_goto {t : State} {place : BackupPc} {lastmsg : Bytes}
    (hun : unsplit place = some lastmsg)
    (hroom : t.scribeInter.messages.length + lastmsg.count newline ≤ m.maxSendMsg) :
    Roomy m (t.goto (.readBackupfile place)) := by
  intro place' lastmsg' hp' hun'
  obtain rfl := Pc.readBackupfile.inj hp'
  obtain rfl := Option.some.inj (hun.symm.trans hun')
  exact hroom

theorem roomy_readBackupfile (h : Roomy m s) {place : BackupPc}
    (hpc : s.pc = .readBackupfile place) (fits : LinesFit m s (.thread ans)) :
    Roomy m (readBackupfile m ans s place) := by
  cases place with
  | opening =>
    apply roomy_of_pc
    intro place' hp'
    simp only [readBackupfile] at hp'
    split at hp' <;> cases hp'
    rfl
  | sizing ino =>
    apply roomy_of_pc
    intro place' hp'
    simp only [readBackupfile] at hp'
    split at hp' <;> cases hp'
    rfl
  | reading ino length =>
    simp only [LinesFit, hpc] at fits
    exact roomy_goto rfl fits
  | splitting lastmsg tM allNum =>
    have hroom := h _ lastmsg hpc rfl
    cases hcut : cut newline lastmsg with
    | none =>
      simp only [readBackupfile, hcut]
      exact roomy_of_pc (by simp)
    | some p =>
      obtain ⟨line, rest⟩ := p
      obtain ⟨rfl, hline⟩ := (cut_eq_some_iff newline lastmsg line rest).mp hcut
      rw [count_line hline] at hroom
      have hqueued : (s.queue (backupEntry m line)).scribeInter.messages.length +
          rest.count newline ≤ m.maxSendMsg := by
        simp only [State.queue_scribeInter_messages, List.length_append, List.length_singleton]
        omega
      simp only [readBackupfile, hcut]
      split
      · exact roomy_goto rfl hqueued
      · exact roomy_goto rfl hqueued
  | sending lastmsg tM allNum =>
    have hroom := h _ lastmsg hpc rfl
    simp only [readBackupfile]
    split
    · exact roomy_goto rfl (by simpa using hroom)
    · refine roomy_goto rfl ?_
      simp only [State.clear_scribeInter_messages, List.length_nil]
      omega
  | reopening lastmsg tM allNum => exact roomy_goto rfl (h _ lastmsg hpc rfl)
  | waiting lastmsg tM allNum =>
    have hroom := h _ lastmsg hpc rfl
    simp only [readBackupfile]
    split
    · exact roomy_goto rfl hroom
    · exact roomy_goto rfl hroom

theorem fitting_step (h : Fitting m s) {a : Act} (fits : LinesFit m s a) :
    Fitting m (step m s a) := by
  refine ⟨bounded_step h.bounded (roomForLine_of_linesFit h fits), ?_⟩
  cases a with
  | external fs => exact h.roomy
  | thread ans =>
    cases hp : s.pc with
    | logtailFile place =>
      apply roomy_of_pc
      intro place' hp'
      rw [step, thread_logtailFile m ans hp] at hp'
      rcases logtailFile_stays ans s place with ⟨p, hpc⟩ | hpc <;> simp [hpc] at hp'
    | stillGood place =>
      apply roomy_of_pc
      intro place' hp'
      rw [step, thread_stillGood m ans hp] at hp'
      cases place with
      | opening sleepM =>
        simp only [stillGood] at hp'
        split at hp' <;> cases hp'
      | comparing =>
        simp only [stillGood] at hp'
        split at hp' <;> cases hp'
        rfl
      | telling => cases hp'
    | readBackupfile place =>
      rw [step, thread_readBackupfile m ans hp]
      exact roomy_readBackupfile h.roomy hp fits
    | readLogFile place =>
      apply roomy_of_pc
      intro place' hp'
      rw [step, thread_readLogFile m ans hp] at hp'
      rcases readLogFile_stays m hp with ⟨p, hpc⟩ | hpc | hpc <;> simp [hpc] at hp'
    | writeCheckpoint place =>
      apply roomy_of_pc
      intro place' hp'
      rw [step, thread_writeCheckpoint m ans hp] at hp'
      cases place with
      | timing =>
        simp only [writeCheckpoint] at hp'
        split at hp' <;> cases hp'
      | writing tTime writeInfo => cases hp'

/-- Too many lines: the thread splits them off until the batch is too large, whatever
the server answers. -/
theorem not_bounded_of_overfull (small : m.maxSendMsg < 2 ^ 63) {lastmsg : Bytes} {tM allNum : Int}
    (hpc : s.pc = .readBackupfile (.splitting lastmsg tM allNum))
    (hover : m.maxSendMsg < s.scribeInter.messages.length + lastmsg.count newline)
    {answers : List Answer}
    (enough : m.maxSendMsg < s.scribeInter.messages.length + answers.length) :
    ¬ Always (step m) (Bounded m) s (answers.map .thread) := by
  induction answers generalizing s lastmsg with
  | nil =>
    intro hbounded
    have hpending := hbounded.first.pending
    rw [List.length_nil] at enough
    omega
  | cons ans answers ih =>
    rintro ⟨hbounded, hrest⟩
    have hpending := hbounded.pending
    cases hcut : cut newline lastmsg with
    | none =>
      rw [List.count_eq_zero_of_not_mem ((cut_eq_none_iff newline lastmsg).mp hcut)] at hover
      omega
    | some p =>
      obtain ⟨line, rest⟩ := p
      obtain ⟨rfl, hline⟩ := (cut_eq_some_iff newline lastmsg line rest).mp hcut
      rw [count_line hline] at hover
      rw [List.length_cons] at enough
      by_cases hfull : sizeT m.maxSendMsg < s.scribeInter.messages.length + 1
      · have hnext := hrest.first.pending
        have hgrown := (grows_thread m ans (s := s) (by simp [findsLine, hpc])).pending
        simp only [step] at hnext
        have hsize : (sizeT m.maxSendMsg : Int) = m.maxSendMsg := by
          unfold sizeT
          omega
        omega
      · have hstep : thread m ans s =
            (s.queue (backupEntry m line)).goto (.readBackupfile (.splitting rest tM allNum)) := by
          rw [thread_readBackupfile m ans hpc]
          simp only [readBackupfile, hcut, State.queue_scribeInter_messages, List.length_append,
            List.length_singleton, gt_iff_lt, if_neg hfull]
        rw [step, hstep] at hrest
        refine ih rfl ?_ ?_ hrest
        · simp only [State.goto_scribeInter, State.queue_scribeInter_messages, List.length_append,
            List.length_singleton]
          omega
        · simp only [State.goto_scribeInter, State.queue_scribeInter_messages, List.length_append,
            List.length_singleton]
          omega

/-- Where the condition fails, no answers of the surroundings save the bound. -/
theorem not_bounded_of_not_linesFit (small : m.maxSendMsg < 2 ^ 63)
    (unfit : ¬ LinesFit m s (.thread ans)) {answers : List Answer}
    (enough : m.maxSendMsg < answers.length) :
    ¬ Always (step m) (Bounded m) s (.thread ans :: answers.map .thread) := by
  rintro ⟨-, hrest⟩
  simp only [LinesFit] at unfit
  split at unfit
  · exact not_bounded_of_full (a := .thread ans) unfit hrest.first
  · rename_i ino length hpc
    rw [step, thread_readBackupfile m ans hpc] at hrest
    refine not_bounded_of_overfull small rfl ?_ ?_ hrest
    · exact not_le.mp unfit
    · omega
  · exact absurd trivial unfit

end

/-- For every start, every file contents and rotations and every sequence of server
replies: the batches stay within `max_send_msg` if in every step the lines fit. Where
they do not, the thread breaks the bound in that step, or in the loop of
`read_backupfile` that follows. -/
theorem bounded_of_linesFit (m : Config) (positive : 0 < m.maxSendMsg)
    (small : m.maxSendMsg < 2 ^ 63) (fs : Fs) (checkpoint : Option Bytes) (position : Int)
    (oStat : Stat) (connected : Bool) (acts : List Act) :
    (Guarded (step m) (LinesFit m) (started fs checkpoint position oStat connected) acts →
      Always (step m) (Bounded m) (started fs checkpoint position oStat connected) acts) ∧
    ∀ (ans : Answer) (answers : List Answer),
      ¬ LinesFit m (run (step m) (started fs checkpoint position oStat connected) acts)
        (.thread ans) →
      m.maxSendMsg < answers.length →
      ¬ Always (step m) (Bounded m) (started fs checkpoint position oStat connected)
        (acts ++ .thread ans :: answers.map .thread) := by
  constructor
  · intro fits
    have hstart : Fitting m (started fs checkpoint position oStat connected) :=
      ⟨bounded_started positive fs checkpoint position oStat connected, roomy_of_pc nofun⟩
    have hfitting := invariant_always (I := Fitting m) (fun _ _ h => fitting_step h) hstart fits
    exact always_mono (fun _ h => h.bounded) hfitting
  · intro ans answers unfit enough hbounded
    exact not_bounded_of_not_linesFit small unfit enough (always_append hbounded)

theorem logged_of_mem_acked {s : State} {batch : List LogEntry} (h : batch ∈ s.acked) :
    Event.logged batch .ok ∈ s.history := by
  obtain ⟨e, he, hbatch⟩ := List.mem_filterMap.mp h
  split at hbatch
  · rename_i batch'
    obtain rfl := Option.some.inj hbatch
    exact he
  · cases hbatch

/-- Batches of one entry, and a server that is reached and refuses. -/
def singleModel : Config := { shortModel .cxx11 with maxSendMsg := 1 }

def refusing : Answer := { allWell 1 with outcome := .tryLater }

/-- One line, which the server refuses twice: the batch is kept and stays as it is. -/
theorem bounded_refusedLine :
    Always (step singleModel) (Bounded singleModel)
      (started (oneFile 7 [97, newline]) none 0 ⟨7, 2⟩ true)
      (List.replicate 20 (.thread refusing)) := by
  refine (bounded_of_linesFit singleModel (by decide) (by decide) (oneFile 7 [97, newline]) none 0
    ⟨7, 2⟩ true (List.replicate 20 (.thread refusing))).1 ?_
  exact ⟨trivial, trivial, trivial, trivial, fun _ => by decide, trivial, trivial, trivial, trivial,
    trivial, trivial, trivial, trivial, trivial, trivial, fun h => absurd h (by decide), trivial,
    trivial, trivial, trivial, trivial⟩

/-- The two lines of the backup file are sent as one batch, though every call succeeds;
and a refused line is sent again together with the next one. -/
theorem not_bounded_twoLines :
    ¬ Always (step singleModel) (Bounded singleModel)
        (started (twoFiles [97, newline, 98, newline] []) none 0 ⟨1, 4⟩ true)
        (List.replicate 9 (.thread (allWell 1))) ∧
      ¬ Always (step singleModel) (Bounded singleModel)
        (started (oneFile 7 [97, newline, 98, newline]) none 0 ⟨7, 4⟩ true)
        (List.replicate 20 (.thread refusing)) := by
  have hbackup : (run (step singleModel)
      (started (twoFiles [97, newline, 98, newline] []) none 0 ⟨1, 4⟩ true)
      (List.replicate 9 (.thread (allWell 1)))).acked =
        [[backupEntry singleModel [97], backupEntry singleModel [98]]] := by decide
  have hrefused : (run (step singleModel)
      (started (oneFile 7 [97, newline, 98, newline]) none 0 ⟨7, 4⟩ true)
      (List.replicate 20 (.thread refusing))).scribeInter.messages =
        [liveEntry singleModel [97], liveEntry singleModel [98]] := by decide
  constructor
  · intro h
    have hlogged := logged_of_mem_acked (hbackup ▸ List.mem_singleton_self _)
    exact absurd ((always_last h).logged _ .ok hlogged) (by decide)
  · intro h
    have hpending := (always_last h).pending
    rw [hrefused] at hpending
    exact absurd hpending (by decide)

end ModelRead
