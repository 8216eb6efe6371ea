import Logtail.ScribeSend
import Logtail.Checkpoint
import Logtail.Transitions
import Mathlib.Tactic.Simps.Basic

/-!
# The tail thread of one model

`ModelRead` as a machine that takes one file, network or queue operation a
step. Each member function of the source is one definition by cases on the
place it has reached; a place carries the local variables that are live there.
Other processes change the file system between any two steps. Log messages and
alarms have no effect on the state and are left out.
-/

namespace ModelRead

open Framing FileStream ScribeSend Checkpoint

/-- The members that the tail loop only reads. -/
structure Config where
  logPrefix : Bytes
  category : Bytes
  path : Bytes
  maxSendMsg : Int
  checkpointTime : Int
  now : Int
  lib : Libstdcxx

inductive LogtailPc where
  | polling
  | checking
  | sending
  | reopening
  | waiting (tM allNum : Int)

inductive StillGoodPc where
  | opening (sleepM : Int)
  | comparing
  | telling

inductive BackupPc where
  | opening
  | sizing (ino : Nat)
  | reading (ino : Nat) (length : Int)
  | splitting (lastmsg : Bytes) (tM allNum : Int)
  | sending (lastmsg : Bytes) (tM allNum : Int)
  | reopening (lastmsg : Bytes) (tM allNum : Int)
  | waiting (lastmsg : Bytes) (tM allNum : Int)

inductive ReadPc where
  | seeking
  | getline
  | closing

inductive CheckpointPc where
  | timing
  | writing (tTime : Int) (writeInfo : Bytes)

/-- The member function that runs, and how far it has come. -/
inductive Pc where
  | logtailFile (place : LogtailPc)
  | stillGood (place : StillGoodPc)
  | readBackupfile (place : BackupPc)
  | readLogFile (place : ReadPc)
  | writeCheckpoint (place : CheckpointPc)

/-- What an observer of the thread sees. -/
inductive Event where
  | queued (le : LogEntry)
  | logged (batch : List LogEntry) (outcome : LogOutcome)
  | outage
  | waited (tM allNum : Int)
  | rewritten (tTime : Int)

structure State where
  fs : Fs
  checkpoint : Option Bytes
  position : Int
  nStat : Stat
  oStat : Stat
  logreadfile : Option Ifstream
  scribeInter : Client
  pc : Pc
  history : List Event

/-- `logtail_File` is entered with a closed stream, an empty batch and the stat
result that `openLogFile` has taken. -/
def started (fs : Fs) (checkpoint : Option Bytes) (position : Int) (oStat : Stat)
    (connected : Bool) : State where
  fs := fs
  checkpoint := checkpoint
  position := position
  nStat := oStat
  oStat := oStat
  logreadfile := none
  scribeInter := ⟨[], connected⟩
  pc := .logtailFile .polling
  history := []

/-- A `long` compared with a `size_t` is converted to 64 unsigned bits. -/
def sizeT (x : Int) : Nat := (x % 2 ^ 64).toNat

def liveEntry (m : Config) (line : Bytes) : LogEntry :=
  ⟨m.category, m.logPrefix ++ line ++ [newline]⟩

def backupEntry (m : Config) (line : Bytes) : LogEntry :=
  ⟨m.category, m.logPrefix ++ line⟩

inductive Rotation where
  | moved
  | rolled
  deriving DecidableEq

/-- The branch that `stillGood` takes for the stat results of two polls. -/
def rotation (nStat oStat : Stat) : Option Rotation :=
  if nStat.stIno ≠ oStat.stIno then some .moved
  else if nStat.stSize < oStat.stSize then some .rolled
  else none

namespace State

@[simps]
def goto (s : State) (pc : Pc) : State := { s with pc := pc }

@[simps]
def record (s : State) (e : Event) : State := { s with history := s.history ++ [e] }

/-- `scribe_inter.messages.push_back(le)`. -/
@[simps]
def queue (s : State) (le : LogEntry) : State :=
  { s with
    scribeInter := { s.scribeInter with messages := s.scribeInter.messages ++ [le] }
    history := s.history ++ [.queued le] }

/-- `scribe_inter.send()`. -/
@[simps]
def send (s : State) (ans : Answer) : State :=
  { s with
    scribeInter := (s.scribeInter.send ans).2.1
    history := s.history ++
      ((s.scribeInter.send ans).2.2.map (Event.logged s.scribeInter.messages)).toList }

/-- `scribe_inter.messages.clear()`. -/
@[simps]
def clear (s : State) : State := { s with scribeInter := { s.scribeInter with messages := [] } }

/-- `scribe_inter.close(); scribe_inter.open();` -/
@[simps]
def reopen (s : State) (ans : Answer) : State :=
  { s with scribeInter := s.scribeInter.close.reopened ans }

/-- `position = logreadfile.tellg()`. -/
def tell (m : Config) (s : State) : State :=
  match s.logreadfile with
  | some f => { s with position := (f.tellg m.lib).1, logreadfile := some (f.tellg m.lib).2 }
  | none => { s with position := -1 }

end State

/-- One call of `open()` and `sleep(t_m)` in a reconnect loop. The loop of
`read_backupfile` does not close first; the transport is not open there. -/
@[simps! fs checkpoint position nStat oStat logreadfile scribeInter pc]
def backoff (s : State) (ans : Answer) (tM allNum : Int) : State :=
  (s.reopen ans).record (.waited tM (allNum + tM))

def logtailFile (ans : Answer) (s : State) : LogtailPc → State
  | .polling => s.goto (.stillGood (.opening 5))
  | .checking =>
    if s.scribeInter.messages.length > 0 then s.goto (.logtailFile .sending)
    else s.goto (.logtailFile .polling)
  | .sending =>
    if (s.scribeInter.send ans).1 = .connFatal ∨ (s.scribeInter.send ans).1 = .connTransient then
      (s.send ans).goto (.logtailFile .reopening)
    else (s.send ans).clear.goto (.logtailFile .polling)
  | .reopening => ((s.reopen ans).record .outage).goto (.logtailFile (.waiting 5 0))
  | .waiting tM allNum =>
    if s.scribeInter.isOpen then s.goto (.logtailFile .polling)
    else (backoff s ans tM allNum).goto
      (.logtailFile (.waiting (if tM ≥ 300 then tM else 2 * tM) (allNum + tM)))

def stillGood (m : Config) (s : State) : StillGoodPc → State
  | .opening sleepM =>
    match s.fs.path with
    | some ino =>
      { s with logreadfile := some (Ifstream.opened ino) }.goto (.stillGood .comparing)
    | none => s.goto (.stillGood (.opening (if sleepM ≥ 300 then sleepM else 2 * sleepM)))
  | .comparing =>
    -- a failed stat leaves n_stat as it was
    let nStat := s.fs.stat.getD s.nStat
    match rotation nStat s.oStat with
    | some _ =>
      { s with nStat := nStat, logreadfile := s.logreadfile.map (Ifstream.seekg m.lib · 0) }.goto
        (.readBackupfile .opening)
    | none => { s with nStat := nStat, oStat := nStat }.goto (.readLogFile .seeking)
  | .telling => { s.tell m with oStat := s.nStat }.goto (.readLogFile .seeking)

/-- The buffer of `read_backupfile` and the memory behind it, after the read. A
negative position makes `seekg` and then `read` fail. -/
def buffer (content memory : Bytes) (position length : Int) : Bytes :=
  let got := if position < 0 then [] else (content.drop position.toNat).take length.toNat
  got ++ memory.drop got.length

def readBackupfile (m : Config) (ans : Answer) (s : State) : BackupPc → State
  | .opening =>
    match s.fs.backupPath with
    | some ino => s.goto (.readBackupfile (.sizing ino))
    | none => s.goto (.stillGood .telling)
  | .sizing ino =>
    let length : Int := (s.fs.file ino).length - s.position
    if length > 0 then s.goto (.readBackupfile (.reading ino length))
    else s.goto (.stillGood .telling)
  | .reading ino length =>
    let lastmsg := cString (buffer (s.fs.file ino) ans.memory s.position length)
    s.goto (.readBackupfile (.splitting lastmsg 5 ans.garbage))
  | .splitting lastmsg tM allNum =>
    match cut newline lastmsg with
    | none => s.goto (.stillGood .telling)
    | some (line, rest) =>
      if (s.queue (backupEntry m line)).scribeInter.messages.length > sizeT m.maxSendMsg then
        (s.queue (backupEntry m line)).goto (.readBackupfile (.sending rest tM allNum))
      else (s.queue (backupEntry m line)).goto (.readBackupfile (.splitting rest tM allNum))
  | .sending lastmsg tM allNum =>
    if (s.scribeInter.send ans).1 = .connFatal ∨ (s.scribeInter.send ans).1 = .connTransient then
      (s.send ans).goto (.readBackupfile (.reopening lastmsg tM allNum))
    else (s.send ans).clear.goto (.readBackupfile (.splitting lastmsg tM allNum))
  | .reopening lastmsg tM allNum =>
    ((s.reopen ans).record .outage).goto (.readBackupfile (.waiting lastmsg tM allNum))
  | .waiting lastmsg tM allNum =>
    -- t_m and all_num are declared outside the line loop and keep their values
    if s.scribeInter.isOpen then s.goto (.readBackupfile (.splitting lastmsg tM allNum))
    else (backoff s ans tM allNum).goto
      (.readBackupfile (.waiting lastmsg (if tM > 300 then tM else 2 * tM) (allNum + tM)))

def readLogFile (m : Config) (s : State) : ReadPc → State
  | .seeking =>
    { s with logreadfile := s.logreadfile.map (Ifstream.seekg m.lib · s.position) }.goto
      (.readLogFile .getline)
  | .getline =>
    match s.logreadfile with
    | none => s.goto (.writeCheckpoint .timing)
    | some f =>
      match f.getline (s.fs.file f.ino) with
      | (none, f') => { s with logreadfile := some f' }.goto (.writeCheckpoint .timing)
      | (some temp, f') =>
        let s := ({ s with logreadfile := some f' }.queue (liveEntry m temp)).tell m
        if s.scribeInter.messages.length ≥ sizeT m.maxSendMsg then
          s.goto (.writeCheckpoint .timing)
        else s
  | .closing => { s with logreadfile := none }.goto (.logtailFile .checking)

def writeCheckpoint (m : Config) (ans : Answer) (s : State) : CheckpointPc → State
  | .timing =>
    -- with a `checkpoint_time` of zero the division ends the whole process, see `processStep`
    let passTime := ans.clock - m.now
    let writeInfo := checkpointLine ans.clock s.position m.path
    if passTime.tmod m.checkpointTime = 0 ∧ ans.writable then
      -- open(checkpointpath, trunc)
      { s with checkpoint := some [] }.goto (.writeCheckpoint (.writing ans.clock writeInfo))
    else s.goto (.readLogFile .closing)
  | .writing tTime writeInfo =>
    ({ s with checkpoint := some writeInfo }.record (.rewritten tTime)).goto
      (.readLogFile .closing)

def thread (m : Config) (ans : Answer) (s : State) : State :=
  match s.pc with
  | .logtailFile place => logtailFile ans s place
  | .stillGood place => stillGood m s place
  | .readBackupfile place => readBackupfile m ans s place
  | .readLogFile place => readLogFile m s place
  | .writeCheckpoint place => writeCheckpoint m ans s place

inductive Act where
  | thread (ans : Answer)
  | external (fs : Fs)

def step (m : Config) (s : State) : Act → State
  | .thread ans => thread m ans s
  | .external fs => { s with fs := fs }

/-- Every message ever pushed to `scribe_inter.messages`, in order. -/
def queuedIn (history : List Event) : List LogEntry :=
  history.filterMap fun
    | .queued le => some le
    | _ => none

/-- The batches for which `Log` returned OK. -/
def ackedIn (history : List Event) : List (List LogEntry) :=
  history.filterMap fun
    | .logged batch .ok => some batch
    | _ => none

namespace State

def pushed (s : State) : List LogEntry := queuedIn s.history

def acked (s : State) : List (List LogEntry) := ackedIn s.history

@[simp] theorem pushed_goto (s : State) (pc : Pc) : (s.goto pc).pushed = s.pushed := rfl

@[simp] theorem acked_goto (s : State) (pc : Pc) : (s.goto pc).acked = s.acked := rfl

@[simp] theorem pushed_clear (s : State) : s.clear.pushed = s.pushed := rfl

@[simp] theorem acked_clear (s : State) : s.clear.acked = s.acked := rfl

@[simp] theorem pushed_reopen (s : State) (ans : Answer) : (s.reopen ans).pushed = s.pushed := rfl

@[simp] theorem acked_reopen (s : State) (ans : Answer) : (s.reopen ans).acked = s.acked := rfl

@[simp] theorem pushed_queue (s : State) (le : LogEntry) :
    (s.queue le).pushed = s.pushed ++ [le] := by
  simp [pushed, queuedIn]

@[simp] theorem acked_queue (s : State) (le : LogEntry) : (s.queue le).acked = s.acked := by
  simp [acked, ackedIn]

@[simp] theorem pushed_send (s : State) (ans : Answer) : (s.send ans).pushed = s.pushed := by
  cases h : (s.scribeInter.send ans).2.2 <;> simp [pushed, queuedIn, h]

theorem acked_send_connOk {s : State} {ans : Answer} (h : (s.scribeInter.send ans).1 = .connOk) :
    (s.send ans).acked = s.acked ++ [s.scribeInter.messages] := by
  have hlog := (send_connOk_iff s.scribeInter ans).mp h
  simp [acked, ackedIn, hlog]

theorem acked_send_failed {s : State} {ans : Answer}
    (h : (s.scribeInter.send ans).1 ≠ .connOk) : (s.send ans).acked = s.acked := by
  have hlog := mt (send_connOk_iff s.scribeInter ans).mpr h
  cases ho : (s.scribeInter.send ans).2.2 with
  | none => simp [acked, ackedIn, ho]
  | some outcome =>
    cases outcome <;> simp [acked, ackedIn, ho] at hlog ⊢

@[simp] theorem pushed_outage (s : State) : (s.record .outage).pushed = s.pushed := by
  simp [pushed, queuedIn]

@[simp] theorem acked_outage (s : State) : (s.record .outage).acked = s.acked := by
  simp [acked, ackedIn]

@[simp] theorem pushed_rewritten (s : State) (tTime : Int) :
    (s.record (.rewritten tTime)).pushed = s.pushed := by
  simp [pushed, queuedIn]

@[simp] theorem acked_rewritten (s : State) (tTime : Int) :
    (s.record (.rewritten tTime)).acked = s.acked := by
  simp [acked, ackedIn]

@[simp] theorem tell_fs (m : Config) (s : State) : (s.tell m).fs = s.fs := by
  unfold tell; split <;> rfl

@[simp] theorem tell_checkpoint (m : Config) (s : State) :
    (s.tell m).checkpoint = s.checkpoint := by
  unfold tell; split <;> rfl

@[simp] theorem tell_nStat (m : Config) (s : State) : (s.tell m).nStat = s.nStat := by
  unfold tell; split <;> rfl

@[simp] theorem tell_oStat (m : Config) (s : State) : (s.tell m).oStat = s.oStat := by
  unfold tell; split <;> rfl

@[simp] theorem tell_scribeInter (m : Config) (s : State) :
    (s.tell m).scribeInter = s.scribeInter := by
  unfold tell; split <;> rfl

@[simp] theorem tell_pc (m : Config) (s : State) : (s.tell m).pc = s.pc := by
  unfold tell; split <;> rfl

@[simp] theorem tell_history (m : Config) (s : State) : (s.tell m).history = s.history := by
  unfold tell; split <;> rfl

@[simp] theorem pushed_tell (m : Config) (s : State) : (s.tell m).pushed = s.pushed := by
  simp [pushed]

@[simp] theorem acked_tell (m : Config) (s : State) : (s.tell m).acked = s.acked := by
  simp [acked]

@[simp] theorem pushed_backoff (s : State) (ans : Answer) (tM allNum : Int) :
    (backoff s ans tM allNum).pushed = s.pushed := by
  simp [backoff, pushed, queuedIn]

@[simp] theorem acked_backoff (s : State) (ans : Answer) (tM allNum : Int) :
    (backoff s ans tM allNum).acked = s.acked := by
  simp [backoff, acked, ackedIn]

end State

theorem thread_logtailFile (m : Config) (ans : Answer) {s : State} {place : LogtailPc}
    (h : s.pc = .logtailFile place) : thread m ans s = logtailFile ans s place := by
  simp [thread, h]

theorem thread_stillGood (m : Config) (ans : Answer) {s : State} {place : StillGoodPc}
    (h : s.pc = .stillGood place) : thread m ans s = stillGood m s place := by
  simp [thread, h]

theorem thread_readBackupfile (m : Config) (ans : Answer) {s : State} {place : BackupPc}
    (h : s.pc = .readBackupfile place) : thread m ans s = readBackupfile m ans s place := by
  simp [thread, h]

theorem thread_readLogFile (m : Config) (ans : Answer) {s : State} {place : ReadPc}
    (h : s.pc = .readLogFile place) : thread m ans s = readLogFile m s place := by
  simp [thread, h]

theorem thread_writeCheckpoint (m : Config) (ans : Answer) {s : State} {place : CheckpointPc}
    (h : s.pc = .writeCheckpoint place) : thread m ans s = writeCheckpoint m ans s place := by
  simp [thread, h]

/-- A step is a step of the member function that runs. -/
theorem thread_cases {m : Config} {ans : Answer} {s : State} {P : State → Prop}
    (hlogtail : ∀ place, s.pc = .logtailFile place → P (logtailFile ans s place))
    (hstill : ∀ place, s.pc = .stillGood place → P (stillGood m s place))
    (hbackup : ∀ place, s.pc = .readBackupfile place → P (readBackupfile m ans s place))
    (hread : ∀ place, s.pc = .readLogFile place → P (readLogFile m s place))
    (hcheckpoint : ∀ place, s.pc = .writeCheckpoint place → P (writeCheckpoint m ans s place)) :
    P (thread m ans s) := by
  cases hpc : s.pc with
  | logtailFile place =>
    rw [thread_logtailFile m ans hpc]
    exact hlogtail place hpc
  | stillGood place =>
    rw [thread_stillGood m ans hpc]
    exact hstill place hpc
  | readBackupfile place =>
    rw [thread_readBackupfile m ans hpc]
    exact hbackup place hpc
  | readLogFile place =>
    rw [thread_readLogFile m ans hpc]
    exact hread place hpc
  | writeCheckpoint place =>
    rw [thread_writeCheckpoint m ans hpc]
    exact hcheckpoint place hpc

/-- A model with short fields, for runs on fixed input. -/
def shortModel (lib : Libstdcxx) : Config where
  logPrefix := [61]
  category := [99]
  path := [112]
  maxSendMsg := 100
  checkpointTime := 5
  now := 0
  lib := lib

/-- Everything succeeds; the clock has reached `clock`. -/
def allWell (clock : Int) : Answer where
  clock := clock
  opens := true
  outcome := .ok
  alive := true
  writable := true
  memory := []
  garbage := 0

/-- One file, under the name `path`. -/
def oneFile (ino : Nat) (bytes : Bytes) : Fs where
  file := Function.update (fun _ => []) ino bytes
  path := some ino
  backupPath := none

/-- A renamed file and its successor. -/
def twoFiles (O N : Bytes) : Fs where
  file := Function.update (Function.update (fun _ => []) 1 O) 2 N
  path := some 2
  backupPath := some 1

end ModelRead
