import Logtail.BatchLedger
import Logtail.Progress
import Logtail.History
import Logtail.Inevitability

/-!
# The thread gets out of every place

Once the log file can be opened and the server accepts, the thread comes back to the
poll with an empty batch, wherever it was: in the middle of a backup file, in a
reconnect loop, behind any rotation.
-/

namespace ModelRead

open Framing FileStream ScribeSend Transitions Inevitability

/-- Behind `s` the batch was sent, and nothing else was queued. -/
structure Flushed (s t : State) : Prop where
  polling : t.pc = .logtailFile .polling
  empty : t.scribeInter.messages = []
  pushed : t.pushed = s.pushed
  fs : t.fs = s.fs

/-- The thread is about to poll, and holds nothing back. -/
structure Drained (s : State) : Prop where
  polling : s.pc = .logtailFile .polling
  empty : s.scribeInter.messages = []

theorem Flushed.drained {s t : State} (h : Flushed s t) : Drained t := ⟨h.polling, h.empty⟩

section

variable {m : Config} {s : State}

/-- An accepting server takes the batch as it is. -/
theorem flushed_of_sending (hpc : s.pc = .logtailFile .sending) :
    Inevitable (step m) Accepting (Flushed s) s := by
  refine inevitable_next fun ans haccepts => .now ?_
  have hsend := send_of_accepts haccepts s.scribeInter
  simp only [thread_logtailFile m ans hpc, logtailFile, hsend]
  exact ⟨rfl, rfl, by simp, rfl⟩

theorem flushed_of_checking (hpc : s.pc = .logtailFile .checking) :
    Inevitable (step m) Accepting (Flushed s) s := by
  refine inevitable_next fun ans _ => ?_
  simp only [thread_logtailFile m ans hpc, logtailFile]
  split
  · exact (flushed_of_sending rfl).trans fun t ht => .now ⟨ht.polling, ht.empty, ht.pushed, ht.fs⟩
  · rename_i hempty
    exact .now ⟨rfl, List.eq_nil_of_length_eq_zero (by simpa using hempty), rfl, rfl⟩

theorem flushed_of_closing (hpc : s.pc = .readLogFile .closing) :
    Inevitable (step m) Accepting (Flushed s) s := by
  refine inevitable_next fun ans _ => ?_
  simp only [thread_readLogFile m ans hpc, readLogFile]
  exact (flushed_of_checking rfl).trans fun t ht => .now ⟨ht.polling, ht.empty, ht.pushed, ht.fs⟩

theorem flushed_of_writing {tTime : Int} {writeInfo : Bytes}
    (hpc : s.pc = .writeCheckpoint (.writing tTime writeInfo)) :
    Inevitable (step m) Accepting (Flushed s) s := by
  refine inevitable_next fun ans _ => ?_
  have hpushed : (thread m ans s).pushed = s.pushed := by
    simp [thread, hpc, writeCheckpoint, State.pushed, queuedIn]
  have hclosing : (thread m ans s).pc = .readLogFile .closing := by
    simp [thread, hpc, writeCheckpoint]
  exact (flushed_of_closing hclosing).trans fun t ht =>
    .now ⟨ht.polling, ht.empty, ht.pushed.trans hpushed, ht.fs.trans (thread_fs m ans s)⟩

theorem flushed_of_timing (hpc : s.pc = .writeCheckpoint .timing) :
    Inevitable (step m) Accepting (Flushed s) s := by
  refine inevitable_next fun ans _ => ?_
  simp only [thread_writeCheckpoint m ans hpc, writeCheckpoint]
  split
  · exact (flushed_of_writing rfl).trans fun t ht =>
      .now ⟨ht.polling, ht.empty, ht.pushed, ht.fs⟩
  · exact (flushed_of_closing rfl).trans fun t ht =>
      .now ⟨ht.polling, ht.empty, ht.pushed, ht.fs⟩

/-- From `write_checkpoint` on, the thread comes to send. -/
theorem drained_of_timing (hpc : s.pc = .writeCheckpoint .timing) :
    Inevitable (step m) Accepting Drained s :=
  (flushed_of_timing hpc).trans fun _ ht => .now ht.drained

end

/-! ## The read loop -/

/-- How many calls of `getline` can still find something. -/
def remaining (content : Bytes) (f : Ifstream) : Nat :=
  if f.good then content.length - f.off + 1 else 0

/-- Each line that is found leaves less of the file to read. -/
theorem remaining_getline {content : Bytes} {f f' : Ifstream} {temp : Bytes}
    (h : f.getline content = (some temp, f')) :
    f'.ino = f.ino ∧ remaining content f' < remaining content f := by
  have hgood : f.good = true := by
    cases hgood : f.good with
    | true => rfl
    | false =>
      rw [Ifstream.getline, hgood] at h
      cases h
  simp only [Ifstream.getline, hgood, Bool.not_true, Bool.false_eq_true, if_false] at h
  split at h
  · rename_i line rest hcut
    have hlen := congrArg List.length
      ((cut_eq_some_iff newline (content.drop f.off) line rest).mp hcut).1
    simp only [List.length_drop, List.length_append, List.length_cons] at hlen
    obtain ⟨-, rfl⟩ := Prod.mk.inj h
    refine ⟨rfl, ?_⟩
    have hsame : ({ f with off := f.off + line.length + 1 } : Ifstream).good = true := hgood
    simp only [remaining, hgood, hsame, if_true]
    omega
  · split at h
    · cases h
    · obtain ⟨-, rfl⟩ := Prod.mk.inj h
      refine ⟨rfl, ?_⟩
      simp only [remaining, hgood, if_true]
      simp [Ifstream.good]

theorem remaining_tellg (lib : Libstdcxx) (content : Bytes) (f : Ifstream) :
    (f.tellg lib).2.ino = f.ino ∧ remaining content (f.tellg lib).2 ≤ remaining content f := by
  unfold Ifstream.tellg
  split
  · exact ⟨rfl, Nat.le_refl _⟩
  · split
    · refine ⟨rfl, ?_⟩
      simp [remaining, Ifstream.good]
    · exact ⟨rfl, Nat.le_refl _⟩

def streamRemaining (s : State) : Nat :=
  match s.logreadfile with
  | some f => remaining (s.fs.file f.ino) f
  | none => 0

theorem streamRemaining_tell (m : Config) (s : State) :
    streamRemaining (s.tell m) ≤ streamRemaining s := by
  cases hf : s.logreadfile with
  | none => simp [streamRemaining, State.tell, hf]
  | some f =>
    have htell := remaining_tellg m.lib (s.fs.file f.ino) f
    simp only [streamRemaining, State.tell, hf, htell.1]
    exact htell.2

section

variable {m : Config} {s : State}

/-- The line loop ends, as the file ends. -/
theorem timing_of_getline (hpc : s.pc = .readLogFile .getline) :
    Inevitable (step m) Accepting (fun t => t.pc = .writeCheckpoint .timing) s := by
  refine inevitable_of_measure (I := fun t => t.pc = .readLogFile .getline) streamRemaining ?_ hpc
  intro t a hp _ ha
  cases a with
  | external fs => exact ha.elim
  | thread ans =>
    simp only [step, thread_readLogFile m ans hp]
    cases hf : t.logreadfile with
    | none =>
      left
      simp [readLogFile, hf]
    | some f =>
      rcases hget : f.getline (t.fs.file f.ino) with ⟨temp, f'⟩
      cases temp with
      | none =>
        left
        simp [readLogFile, hf, hget]
      | some temp =>
        obtain ⟨hino, hlt⟩ := remaining_getline hget
        rw [readLogFile_lineRead hf hget]
        simp only [lineRead]
        split
        · exact Or.inl rfl
        · right
          refine ⟨by simp [hp], ?_⟩
          refine Nat.lt_of_le_of_lt (streamRemaining_tell m _) ?_
          simpa [streamRemaining, hf, hino] using hlt

theorem drained_of_getline (hpc : s.pc = .readLogFile .getline) :
    Inevitable (step m) Accepting Drained s :=
  (timing_of_getline hpc).trans fun _ ht => drained_of_timing ht

theorem drained_of_seeking (hpc : s.pc = .readLogFile .seeking) :
    Inevitable (step m) Accepting Drained s := by
  refine inevitable_next fun ans _ => ?_
  rw [thread_readLogFile m ans hpc]
  exact drained_of_getline rfl

theorem drained_of_telling (hpc : s.pc = .stillGood .telling) :
    Inevitable (step m) Accepting Drained s := by
  refine inevitable_next fun ans _ => ?_
  rw [thread_stillGood m ans hpc]
  exact drained_of_seeking rfl

/-! ## The backup file -/

/-- The thread is in the line loop of `read_backupfile`. -/
def Splitting (s : State) : Prop :=
  ∃ place lastmsg, s.pc = .readBackupfile place ∧ unsplit place = some lastmsg

/-- `read_backupfile` goes through its text, sending or not. -/
theorem splitting_thread (ans : Answer) (h : Splitting s) :
    (thread m ans s).pc = .stillGood .telling ∨ Splitting (thread m ans s) := by
  obtain ⟨place, lastmsg, hpc, hun⟩ := h
  rw [thread_readBackupfile m ans hpc]
  cases place with
  | opening => cases hun
  | sizing ino => cases hun
  | reading ino length => cases hun
  | splitting text tM allNum =>
    simp only [readBackupfile]
    split
    · exact Or.inl rfl
    · split <;> exact Or.inr ⟨_, _, rfl, rfl⟩
  | sending text tM allNum =>
    simp only [readBackupfile]
    split <;> exact Or.inr ⟨_, _, rfl, rfl⟩
  | reopening text tM allNum => exact Or.inr ⟨_, _, rfl, rfl⟩
  | waiting text tM allNum =>
    simp only [readBackupfile]
    split <;> exact Or.inr ⟨_, _, rfl, rfl⟩

/-- The loop over the backup text ends: a send is accepted, and the text gets shorter. -/
theorem drained_of_splitting (h : Splitting s) : Inevitable (step m) Accepting Drained s := by
  have htelling : Inevitable (step m) Accepting (fun t => t.pc = .stillGood .telling) s := by
    refine inevitable_of_measure rounds ?_ h
    intro t a ht hnot ha
    cases a with
    | external fs => exact ha.elim
    | thread ans =>
      rcases splitting_thread (m := m) ans ht with hdone | hstays
      · exact Or.inl hdone
      · obtain ⟨place, lastmsg, hpc, hun⟩ := ht
        rcases rounds_thread (m := m) ha hpc hun with hdone | hlt
        · exact Or.inl hdone
        · exact Or.inr ⟨hstays, hlt⟩
  exact htelling.trans fun _ ht => drained_of_telling ht

theorem drained_of_readBackupfile {place : BackupPc} (hpc : s.pc = .readBackupfile place) :
    Inevitable (step m) Accepting Drained s := by
  have hreading : ∀ {t : State} {ino : Nat} {length : Int},
      t.pc = .readBackupfile (.reading ino length) →
        Inevitable (step m) Accepting Drained t := by
    intro t ino length ht
    refine inevitable_next fun ans _ => ?_
    rw [thread_readBackupfile m ans ht]
    exact drained_of_splitting ⟨_, _, rfl, rfl⟩
  have hsizing : ∀ {t : State} {ino : Nat}, t.pc = .readBackupfile (.sizing ino) →
      Inevitable (step m) Accepting Drained t := by
    intro t ino ht
    refine inevitable_next fun ans _ => ?_
    rw [thread_readBackupfile m ans ht]
    simp only [readBackupfile]
    split
    · exact hreading rfl
    · exact drained_of_telling rfl
  cases place with
  | opening =>
    refine inevitable_next fun ans _ => ?_
    rw [thread_readBackupfile m ans hpc]
    simp only [readBackupfile]
    split
    · exact hsizing rfl
    · exact drained_of_telling rfl
  | sizing ino => exact hsizing hpc
  | reading ino length => exact hreading hpc
  | splitting lastmsg tM allNum => exact drained_of_splitting ⟨_, _, hpc, rfl⟩
  | sending lastmsg tM allNum => exact drained_of_splitting ⟨_, _, hpc, rfl⟩
  | reopening lastmsg tM allNum => exact drained_of_splitting ⟨_, _, hpc, rfl⟩
  | waiting lastmsg tM allNum => exact drained_of_splitting ⟨_, _, hpc, rfl⟩

/-! ## From everywhere -/

theorem drained_of_stillGood {place : StillGoodPc} (hpc : s.pc = .stillGood place)
    (hfile : s.fs.path.isSome) : Inevitable (step m) Accepting Drained s := by
  have hcomparing : ∀ {t : State}, t.pc = .stillGood .comparing →
      Inevitable (step m) Accepting Drained t := by
    intro t ht
    refine inevitable_next fun ans _ => ?_
    rw [thread_stillGood m ans ht]
    simp only [stillGood]
    split
    · exact drained_of_readBackupfile rfl
    · exact drained_of_seeking rfl
  cases place with
  | opening sleepM =>
    obtain ⟨ino, hino⟩ := Option.isSome_iff_exists.mp hfile
    refine inevitable_next fun ans _ => ?_
    rw [thread_stillGood m ans hpc]
    simp only [stillGood, hino]
    exact hcomparing rfl
  | comparing => exact hcomparing hpc
  | telling => exact drained_of_telling hpc

theorem drained_of_logtailFile {place : LogtailPc} (hpc : s.pc = .logtailFile place)
    (hfile : s.fs.path.isSome) : Inevitable (step m) Accepting Drained s := by
  have hpolling : ∀ {t : State}, t.pc = .logtailFile .polling → t.fs.path.isSome →
      Inevitable (step m) Accepting Drained t := by
    intro t ht hpath
    refine inevitable_next fun ans _ => ?_
    rw [thread_logtailFile m ans ht]
    exact drained_of_stillGood rfl hpath
  have hwaiting : ∀ {t : State} {tM allNum : Int}, t.pc = .logtailFile (.waiting tM allNum) →
      t.fs.path.isSome → t.scribeInter.isOpen = true →
        Inevitable (step m) Accepting Drained t := by
    intro t tM allNum ht hpath hopen
    refine inevitable_next fun ans _ => ?_
    rw [thread_logtailFile m ans ht]
    simp only [logtailFile, hopen, if_true]
    exact hpolling rfl hpath
  cases place with
  | polling => exact hpolling hpc hfile
  | checking => exact (flushed_of_checking hpc).trans fun _ ht => .now ht.drained
  | sending => exact (flushed_of_sending hpc).trans fun _ ht => .now ht.drained
  | reopening =>
    refine inevitable_next fun ans haccepts => ?_
    rw [thread_logtailFile m ans hpc]
    exact hwaiting rfl hfile (reopen_of_accepts haccepts s)
  | waiting tM allNum =>
    by_cases hopen : s.scribeInter.isOpen
    · exact hwaiting hpc hfile hopen
    · refine inevitable_next fun ans haccepts => ?_
      rw [thread_logtailFile m ans hpc]
      simp only [logtailFile, hopen, Bool.false_eq_true, if_false]
      exact hwaiting rfl hfile (reopen_of_accepts haccepts s)

/-- Wherever the thread stands, it comes to an empty batch. -/
theorem inevitable_drained (m : Config) {s : State} (hfile : s.fs.path.isSome) :
    Inevitable (step m) Accepting Drained s := by
  cases hpc : s.pc with
  | logtailFile place => exact drained_of_logtailFile hpc hfile
  | stillGood place => exact drained_of_stillGood hpc hfile
  | readBackupfile place => exact drained_of_readBackupfile hpc
  | readLogFile place =>
    cases place with
    | seeking => exact drained_of_seeking hpc
    | getline => exact drained_of_getline hpc
    | closing => exact (flushed_of_closing hpc).trans fun _ ht => .now ht.drained
  | writeCheckpoint place =>
    cases place with
    | timing => exact drained_of_timing hpc
    | writing tTime writeInfo => exact (flushed_of_writing hpc).trans fun _ ht => .now ht.drained

end

/-- From every state of every run, whatever the files, the clock and the server did before:
once the log file can be opened and the server accepts, the thread comes back to the poll
with an empty batch. Then everything that was ever queued is acknowledged. -/
theorem drains_run (m : Config) (fs : Fs) (checkpoint : Option Bytes) (position : Int)
    (oStat : Stat) (connected : Bool) (acts : List Act) :
    let s := run (step m) (started fs checkpoint position oStat connected) acts
    s.fs.path.isSome → ∀ answers : Nat → Answer, (∀ n, Accepts (answers n)) →
      ∃ n, let t := threadRun m s answers n
        Drained t ∧ s.pushed <+: t.pushed ∧ t.acked.flatten = t.pushed := by
  intro s hfile answers haccepts
  have hbalanced : Balanced s :=
    invariant_every_run (I := Balanced) (fun _ a h => balanced_step m h a)
      (balanced_started _ _ _ _ _) acts
  have hdrained := (inevitable_drained m hfile).keep (I := Balanced)
    (fun _ a h _ => balanced_step m h a) hbalanced
  obtain ⟨n, hdone, hlast⟩ := threadRun_met hdrained answers haccepts
  refine ⟨n, hdone, pushed_prefix_run m s _, ?_⟩
  have hpushed := (balanced_iff _).mp hlast
  rw [hdone.empty, List.append_nil] at hpushed
  exact hpushed.symm

/-- The file is there, but no connection comes about and the line waits. -/
def downActs : List Act :=
  List.replicate 30 (.thread { allWell 1 with opens := false, outcome := .exception })

theorem drains_run_downActs :
    let s := run (step (shortModel .cxx11))
      (started (oneFile 7 [97, newline]) none 0 ⟨7, 2⟩ false) downActs
    ∃ n, let t := threadRun (shortModel .cxx11) s (fun k => allWell k) n
      Drained t ∧ s.pushed <+: t.pushed ∧ t.acked.flatten = t.pushed :=
  drains_run (shortModel .cxx11) (oneFile 7 [97, newline]) none 0 ⟨7, 2⟩ false downActs (by decide)
    (fun k => allWell k) fun _ => ⟨rfl, rfl⟩

end ModelRead
