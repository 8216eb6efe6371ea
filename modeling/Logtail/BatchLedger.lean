import Logtail.ModelRead
import Logtail.Delivery

/-!
# The batch is a delivery ledger

`scribe_inter.messages` is filled and cleared in two functions. Every step of
the thread is a move of the ledger of pushed, acknowledged and pending messages,
so the balance of the ledger holds in every state of every run.
-/

namespace ModelRead

open Framing FileStream ScribeSend Delivery

/-- The ledger that a state shows. -/
structure Shows (l : Ledger LogEntry) (s : State) : Prop where
  pushed : s.pushed = l.taken
  acked : s.acked = l.acked
  pending : s.scribeInter.messages = l.pending

/-- CONN_OK is the only result after which the batch is cleared. -/
theorem shows_send_clear {l : Ledger LogEntry} {s : State} (h : Shows l s) {ans : Answer}
    (hok : (s.scribeInter.send ans).1 = .connOk) :
    Shows l.acknowledge (s.send ans).clear where
  pushed := by simp [h.pushed, Ledger.acknowledge]
  acked := by simp [State.acked_send_connOk hok, h.acked, h.pending, Ledger.acknowledge]
  pending := rfl

theorem shows_send_failed {l : Ledger LogEntry} {s : State} (h : Shows l s) {ans : Answer}
    (hfail : (s.scribeInter.send ans).1 ≠ .connOk) : Shows l (s.send ans) where
  pushed := by simp [h.pushed]
  acked := by simp [State.acked_send_failed hfail, h.acked]
  pending := by simp [h.pending]

/-- A step that leaves history and batch alone. -/
theorem shows_kept {l : Ledger LogEntry} {s s' : State} (h : Shows l s)
    (history : s'.history = s.history)
    (messages : s'.scribeInter.messages = s.scribeInter.messages) : Shows l s' where
  pushed := by rw [← h.pushed, State.pushed, State.pushed, history]
  acked := by rw [← h.acked, State.acked, State.acked, history]
  pending := by rw [messages, h.pending]

theorem shows_goto {l : Ledger LogEntry} {s : State} (h : Shows l s) (pc : Pc) :
    Shows l (s.goto pc) :=
  shows_kept h rfl rfl

/-- An entry that a thread makes of a line. -/
def EntryOfLine (m : Config) (le : LogEntry) : Prop :=
  ∃ line, newline ∉ line ∧ (le = liveEntry m line ∨ le = backupEntry m line)

/-- The places where the batch is sent. -/
def Sending : Pc → Prop
  | .logtailFile .sending => True
  | .readBackupfile (.sending _ _ _) => True
  | _ => False

/-- What a step of the thread does to the batch and shows of it. A failed call is
quiet. -/
inductive Works (m : Config) (ans : Answer) (s s' : State) : Prop where
  | quiet (pushed : s'.pushed = s.pushed) (acked : s'.acked = s.acked)
      (pending : s'.scribeInter.messages = s.scribeInter.messages)
  | queues (le : LogEntry) (entry : EntryOfLine m le) (pushed : s'.pushed = s.pushed ++ [le])
      (acked : s'.acked = s.acked)
      (pending : s'.scribeInter.messages = s.scribeInter.messages ++ [le])
  | clears (sending : Sending s.pc) (ok : (s.scribeInter.send ans).1 = .connOk)
      (pushed : s'.pushed = s.pushed) (acked : s'.acked = s.acked ++ [s.scribeInter.messages])
      (pending : s'.scribeInter.messages = [])

section

variable {m : Config} {ans : Answer} {s s' : State}

theorem works_kept (history : s'.history = s.history)
    (messages : s'.scribeInter.messages = s.scribeInter.messages) : Works m ans s s' := by
  refine .quiet ?_ ?_ messages
  · rw [State.pushed, State.pushed, history]
  · rw [State.acked, State.acked, history]

/-- Both send sites: a batch is cleared only behind CONN_OK. -/
theorem works_send (sending : Sending s.pc) (failed done : Pc) :
    Works m ans s
      (if (s.scribeInter.send ans).1 = .connFatal ∨ (s.scribeInter.send ans).1 = .connTransient then
        (s.send ans).goto failed
      else (s.send ans).clear.goto done) := by
  split
  · rename_i hfail
    have hnot : (s.scribeInter.send ans).1 ≠ .connOk := by
      rcases hfail with hfail | hfail <;> simp [hfail]
    exact .quiet (by simp) (by simp [State.acked_send_failed hnot]) (by simp)
  · rename_i hnot
    have hok : (s.scribeInter.send ans).1 = .connOk := by
      cases hcode : (s.scribeInter.send ans).1 with
      | connOk => rfl
      | connFatal => exact absurd (Or.inl hcode) hnot
      | connTransient => exact absurd (Or.inr hcode) hnot
    exact .clears sending hok (by simp) (by simp [State.acked_send_connOk hok]) rfl

theorem logtailFile_works {place : LogtailPc} (hpc : s.pc = .logtailFile place) :
    Works m ans s (logtailFile ans s place) := by
  cases place with
  | polling => exact works_kept rfl rfl
  | checking =>
    simp only [logtailFile]
    split <;> exact works_kept rfl rfl
  | sending => exact works_send (by rw [hpc]; trivial) _ _
  | reopening =>
    exact .quiet (by simp [logtailFile]) (by simp [logtailFile]) (by simp [logtailFile])
  | waiting tM allNum =>
    simp only [logtailFile]
    split
    · exact works_kept rfl rfl
    · exact .quiet (by simp) (by simp) (by simp)

theorem stillGood_works (place : StillGoodPc) : Works m ans s (stillGood m s place) := by
  cases place with
  | opening sleepM =>
    simp only [stillGood]
    split <;> exact works_kept rfl rfl
  | comparing =>
    simp only [stillGood]
    split <;> exact works_kept rfl rfl
  | telling => exact works_kept (by simp [stillGood]) (by simp [stillGood])

theorem readBackupfile_works {place : BackupPc} (hpc : s.pc = .readBackupfile place) :
    Works m ans s (readBackupfile m ans s place) := by
  cases place with
  | opening =>
    simp only [readBackupfile]
    split <;> exact works_kept rfl rfl
  | sizing ino =>
    simp only [readBackupfile]
    split <;> exact works_kept rfl rfl
  | reading ino length => exact works_kept rfl rfl
  | splitting lastmsg tM allNum =>
    cases hcut : cut newline lastmsg with
    | none =>
      simp only [readBackupfile, hcut]
      exact works_kept rfl rfl
    | some p =>
      have hline := ((cut_eq_some_iff _ _ p.1 p.2).mp hcut).2
      simp only [readBackupfile, hcut]
      split <;> exact .queues _ ⟨p.1, hline, Or.inr rfl⟩ (by simp) (by simp) (by simp)
  | sending lastmsg tM allNum => exact works_send (by rw [hpc]; trivial) _ _
  | reopening lastmsg tM allNum =>
    exact .quiet (by simp [readBackupfile]) (by simp [readBackupfile]) (by simp [readBackupfile])
  | waiting lastmsg tM allNum =>
    simp only [readBackupfile]
    split
    · exact works_kept rfl rfl
    · exact .quiet (by simp) (by simp) (by simp)

theorem newline_not_mem_getline {f f' : Ifstream} {content temp : Bytes}
    (h : f.getline content = (some temp, f')) : newline ∉ temp := by
  unfold Ifstream.getline at h
  split at h
  · cases h
  · cases hcut : cut newline (content.drop f.off) with
    | some p =>
      rw [hcut] at h
      obtain rfl := Option.some.inj (Prod.mk.inj h).1
      exact ((cut_eq_some_iff _ _ p.1 p.2).mp hcut).2
    | none =>
      simp only [hcut] at h
      split at h
      · cases h
      · obtain rfl := Option.some.inj (Prod.mk.inj h).1
        exact (cut_eq_none_iff _ _).mp hcut

theorem readLogFile_works (place : ReadPc) : Works m ans s (readLogFile m s place) := by
  cases place with
  | seeking => exact works_kept rfl rfl
  | getline =>
    cases hf : s.logreadfile with
    | none =>
      simp only [readLogFile, hf]
      exact works_kept rfl rfl
    | some f =>
      cases hget : f.getline (s.fs.file f.ino) with
      | mk temp f' =>
        cases temp with
        | none =>
          simp only [readLogFile, hf, hget]
          exact works_kept rfl rfl
        | some temp =>
          have hentry : EntryOfLine m (liveEntry m temp) :=
            ⟨temp, newline_not_mem_getline hget, Or.inl rfl⟩
          simp only [readLogFile, hf, hget]
          split <;> exact .queues _ hentry (by simp; rfl) (by simp; rfl) (by simp)
  | closing => exact works_kept rfl rfl

theorem writeCheckpoint_works (place : CheckpointPc) :
    Works m ans s (writeCheckpoint m ans s place) := by
  cases place with
  | timing =>
    simp only [writeCheckpoint]
    split <;> exact works_kept rfl rfl
  | writing tTime writeInfo =>
    exact .quiet (by simp [writeCheckpoint, State.pushed, queuedIn])
      (by simp [writeCheckpoint, State.acked, ackedIn]) rfl

variable (m ans s) in
/-- Every step of the thread is one of the three, and queues entries of one line only. -/
theorem thread_works : Works m ans s (thread m ans s) := by
  apply thread_cases (P := Works m ans s)
  · exact fun place hpc => logtailFile_works hpc
  · exact fun place _ => stillGood_works place
  · exact fun place hpc => readBackupfile_works hpc
  · exact fun place _ => readLogFile_works place
  · exact fun place _ => writeCheckpoint_works place

theorem Works.moves (h : Works m ans s s') {l : Ledger LogEntry} (hl : Shows l s) :
    ∃ l', Ledger.Move l l' ∧ Shows l' s' := by
  cases h with
  | quiet pushed acked pending =>
    exact ⟨l, .stay l, pushed.trans hl.pushed, acked.trans hl.acked, pending.trans hl.pending⟩
  | queues le _ pushed acked pending =>
    refine ⟨l.push le, .push l le, ?_, acked.trans hl.acked, ?_⟩
    · rw [pushed, hl.pushed, Ledger.push]
    · rw [pending, hl.pending, Ledger.push]
  | clears _ _ pushed acked pending =>
    refine ⟨l.acknowledge, .acknowledge l, pushed.trans hl.pushed, ?_, pending⟩
    rw [acked, hl.acked, hl.pending, Ledger.acknowledge]

end

/-- Every step, of the thread or of another process, is a move of the ledger. -/
theorem step_moves (m : Config) {l : Ledger LogEntry} {s : State} (h : Shows l s) (a : Act) :
    ∃ l', Ledger.Move l l' ∧ Shows l' (step m s a) := by
  cases a with
  | external fs => exact ⟨l, .stay l, shows_kept h rfl rfl⟩
  | thread ans => exact (thread_works m ans s).moves h

/-- A state whose messages are accounted for. -/
def Balanced (s : State) : Prop := ∃ l, Shows l s

theorem balanced_iff (s : State) :
    Balanced s ↔ s.pushed = s.acked.flatten ++ s.scribeInter.messages := by
  constructor
  · rintro ⟨l, h⟩
    rw [h.pushed, h.acked, h.pending]
    exact l.balanced
  · intro h
    exact ⟨⟨s.pushed, s.acked, s.scribeInter.messages, h⟩, rfl, rfl, rfl⟩

theorem balanced_step (m : Config) {s : State} (h : Balanced s) (a : Act) :
    Balanced (step m s a) := by
  obtain ⟨l, hl⟩ := h
  obtain ⟨l', _, hl'⟩ := step_moves m hl a
  exact ⟨l', hl'⟩

theorem balanced_started (fs : Fs) (checkpoint : Option Bytes) (position : Int) (oStat : Stat)
    (connected : Bool) : Balanced (started fs checkpoint position oStat connected) :=
  ⟨Ledger.empty, rfl, rfl, rfl⟩

/-- For every start and every sequence of thread steps, connection outcomes,
`Log` results and changes by other processes, the messages ever pushed are the
acknowledged batches followed by the current batch. -/
theorem pushed_eq_acked_append_messages (m : Config) (fs : Fs) (checkpoint : Option Bytes)
    (position : Int) (oStat : Stat) (connected : Bool) (acts : List Act) :
    let s := Transitions.run (step m) (started fs checkpoint position oStat connected) acts
    s.pushed = s.acked.flatten ++ s.scribeInter.messages := by
  apply (balanced_iff _).mp
  exact Transitions.invariant_every_run (I := Balanced) (fun _ a h => balanced_step m h a)
    (balanced_started fs checkpoint position oStat connected) acts

end ModelRead
