import Logtail.Frames
import Logtail.Inevitability

/-!
# The history is only written

No step reads the history. What a thread does behind an earlier history is what it
does with an empty one, so a run can be taken apart at any state and its parts
looked at one by one.
-/

namespace ModelRead

open Framing FileStream ScribeSend Transitions Inevitability

namespace State

/-- The same state behind an earlier history. -/
@[simps]
def behind (s : State) (earlier : List Event) : State := { s with history := earlier ++ s.history }

variable (s : State) (earlier : List Event)

@[simp] theorem goto_behind (pc : Pc) : (s.behind earlier).goto pc = (s.goto pc).behind earlier :=
  rfl

@[simp] theorem clear_behind : (s.behind earlier).clear = s.clear.behind earlier := rfl

@[simp] theorem reopen_behind (ans : Answer) :
    (s.behind earlier).reopen ans = (s.reopen ans).behind earlier := rfl

@[simp] theorem record_behind (e : Event) :
    (s.behind earlier).record e = (s.record e).behind earlier := by
  simp [record, behind]

@[simp] theorem queue_behind (le : LogEntry) :
    (s.behind earlier).queue le = (s.queue le).behind earlier := by
  simp [queue, behind]

@[simp] theorem send_behind (ans : Answer) :
    (s.behind earlier).send ans = (s.send ans).behind earlier := by
  simp [send, behind]

/-- `tellg` looks at the stream only. -/
@[simp] theorem tell_behind (m : Config) :
    (s.behind earlier).tell m = (s.tell m).behind earlier := by
  cases h : s.logreadfile <;> simp [tell, behind, h]

@[simp] theorem backoff_behind (ans : Answer) (tM allNum : Int) :
    backoff (s.behind earlier) ans tM allNum = (backoff s ans tM allNum).behind earlier := by
  simp [backoff]

/-- No branch depends on the history. -/
theorem ite_behind (c : Prop) [Decidable c] (t u : State) :
    (if c then t.behind earlier else u.behind earlier) = (if c then t else u).behind earlier :=
  (apply_ite (fun t => behind t earlier) c t u).symm

end State

variable (s : State) (earlier : List Event)

theorem logtailFile_behind (ans : Answer) (place : LogtailPc) :
    logtailFile ans (s.behind earlier) place = (logtailFile ans s place).behind earlier := by
  cases place <;> simp [logtailFile, State.ite_behind]

theorem stillGood_behind (m : Config) (place : StillGoodPc) :
    stillGood m (s.behind earlier) place = (stillGood m s place).behind earlier := by
  cases place with
  | opening sleepM => cases h : s.fs.path <;> simp [stillGood, h, State.behind, State.goto]
  | comparing =>
    cases h : rotation (s.fs.stat.getD s.nStat) s.oStat <;>
      simp [stillGood, h, State.behind, State.goto]
  | telling =>
    simp only [stillGood, State.tell_behind]
    rfl

theorem readBackupfile_behind (m : Config) (ans : Answer) (place : BackupPc) :
    readBackupfile m ans (s.behind earlier) place
      = (readBackupfile m ans s place).behind earlier := by
  cases place with
  | opening => cases h : s.fs.backupPath <;> simp [readBackupfile, h]
  | splitting lastmsg tM allNum =>
    cases h : cut newline lastmsg with
    | none => simp [readBackupfile, h]
    | some line => simp [readBackupfile, h, State.ite_behind]
  | _ => simp [readBackupfile, State.ite_behind]

/-- What `readLogFile` does with a line that `getline` has found. -/
def lineRead (m : Config) (s : State) (temp : Bytes) : State :=
  let t := (s.queue (liveEntry m temp)).tell m
  if t.scribeInter.messages.length ≥ sizeT m.maxSendMsg then t.goto (.writeCheckpoint .timing)
  else t

/-- The step that finds a line, with its rest under a name. -/
theorem readLogFile_lineRead {m : Config} {s : State} {f f' : Ifstream} {temp : Bytes}
    (hf : s.logreadfile = some f) (hget : f.getline (s.fs.file f.ino) = (some temp, f')) :
    readLogFile m s .getline = lineRead m { s with logreadfile := some f' } temp := by
  simp only [readLogFile, hf, hget, lineRead]

theorem lineRead_behind (m : Config) (temp : Bytes) :
    lineRead m (s.behind earlier) temp = (lineRead m s temp).behind earlier := by
  simp [lineRead, State.ite_behind]

theorem readLogFile_behind (m : Config) (place : ReadPc) :
    readLogFile m (s.behind earlier) place = (readLogFile m s place).behind earlier := by
  cases place with
  | seeking => rfl
  | closing => rfl
  | getline =>
    cases hf : s.logreadfile with
    | none => simp [readLogFile, hf]
    | some f =>
      rcases hget : f.getline (s.fs.file f.ino) with ⟨temp, f'⟩
      cases temp with
      | none => simp only [readLogFile, State.behind, hf, hget, State.goto]
      | some temp =>
        have hf' : (s.behind earlier).logreadfile = some f := hf
        rw [readLogFile_lineRead hf hget, readLogFile_lineRead hf' hget]
        exact lineRead_behind { s with logreadfile := some f' } earlier m temp

theorem writeCheckpoint_behind (m : Config) (ans : Answer) (place : CheckpointPc) :
    writeCheckpoint m ans (s.behind earlier) place
      = (writeCheckpoint m ans s place).behind earlier := by
  cases place with
  | timing =>
    simp only [writeCheckpoint]
    split <;> rfl
  | writing tTime writeInfo => simp [writeCheckpoint, State.behind, State.record, State.goto]

/-- A step behind an earlier history is the step, behind it. -/
theorem step_behind (m : Config) (a : Act) :
    step m (s.behind earlier) a = (step m s a).behind earlier := by
  cases a with
  | external fs => rfl
  | thread ans =>
    simp only [step, thread, State.behind_pc]
    cases s.pc with
    | logtailFile place => exact logtailFile_behind s earlier ans place
    | stillGood place => exact stillGood_behind s earlier m place
    | readBackupfile place => exact readBackupfile_behind s earlier m ans place
    | readLogFile place => exact readLogFile_behind s earlier m place
    | writeCheckpoint place => exact writeCheckpoint_behind s earlier m ans place

/-- So is a run. -/
theorem run_behind (m : Config) (acts : List Act) :
    run (step m) (s.behind earlier) acts = (run (step m) s acts).behind earlier := by
  induction acts generalizing s with
  | nil => rfl
  | cons a acts ih => rw [run_cons, run_cons, step_behind, ih]

/-- The rules of a run look through the earlier history. -/
theorem guarded_behind {G : State → Act → Prop} {m : Config} {acts : List Act} :
    Guarded (step m) G (s.behind earlier) acts ↔
      Guarded (step m) (fun t a => G (t.behind earlier) a) s acts := by
  induction acts generalizing s with
  | nil => rfl
  | cons a acts ih => rw [Guarded, Guarded, step_behind, ih]

/-- What cannot be avoided with an empty history cannot be avoided behind an earlier one. -/
theorem inevitable_behind {G : State → Act → Prop} {P : State → Prop} {m : Config}
    (h : Inevitable (step m) (fun t a => G (t.behind earlier) a)
      (fun t => P (t.behind earlier)) s) :
    Inevitable (step m) G P (s.behind earlier) := by
  induction h with
  | now met => exact .now met
  | next _ ih =>
    refine .next fun a ha => ?_
    rw [step_behind]
    exact ih a ha

/-- The state as if nothing had happened before. -/
def State.fresh (s : State) : State := { s with history := [] }

theorem behind_fresh : s.fresh.behind s.history = s := by
  simp [State.fresh, State.behind]

/-- A run goes as if nothing had happened before. -/
theorem run_fresh (m : Config) (s : State) (acts : List Act) :
    run (step m) s acts = (run (step m) s.fresh acts).behind s.history := by
  rw [← run_behind, behind_fresh]

/-- The messages of the earlier history come first. -/
theorem pushed_behind : (s.behind earlier).pushed = queuedIn earlier ++ s.pushed := by
  simp [State.pushed, queuedIn]

end ModelRead
