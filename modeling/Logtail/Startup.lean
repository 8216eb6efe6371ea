import Logtail.Progress

/-!
# Start-up with and without a checkpoint

From the checkpoint file to the first poll. The record has no inode, and
`openLogFile` takes the stat result of the file it finds as the old one, so a
rotation between the record and the start leaves nothing to notice: the loop goes
on in the new file, at the recorded position or at its end.
-/

namespace ModelRead

open Framing FileStream ScribeSend Checkpoint Transitions Inevitability

/-- `reload`: `isreload` and `position` afterwards. `garbage` is the value of the
uninitialized `t_return` of `StringToInt`. -/
def reload (m : Config) (garbage : Int) (mCheckpoint : CheckpointMap) (position : Int) :
    Bool × Int :=
  let tPosition := (stringToInt mCheckpoint.checkPosition).getD garbage
  if m.path = mCheckpoint.checkPath then (true, tPosition) else (false, position)

/-- `openLogFile`: the position and the stat result to start with; without a file
it returns false. -/
def openLogFile (fs : Fs) (isreload : Bool) (position : Int) : Option (Int × Stat) :=
  fs.path.map fun ino =>
    let endPosition : Int := (fs.file ino).length
    let position :=
      if isreload then (if endPosition < position then endPosition else position)
      else endPosition
    (position, ⟨ino, (fs.file ino).length⟩)

/-- The main function with `-r`, up to the first poll: `reload`, `openLogFile` and
`logtail_File`. Without a readable record the map is empty, and `find` is
dereferenced at its end. -/
def restart (m : Config) (garbage position : Int) (fs : Fs) (checkpoint : Option Bytes)
    (connected : Bool) : Option State := do
  let mCheckpoint ← getcheckpoint checkpoint
  let (isreload, position) := reload m garbage mCheckpoint position
  let (position, oStat) ← openLogFile fs isreload position
  return started fs checkpoint position oStat connected

section

variable {m : Config} {fs : Fs} {new : Nat} {tTime : Int}

/-- A start with `-r` goes to the recorded position, cut down to the size of the file, or
to the end of the file when the record names another path. -/
theorem restart_eq_started {checkpoint : Option Bytes} {map : CheckpointMap}
    (hmap : getcheckpoint checkpoint = some map) (hfile : fs.path = some new)
    (garbage position : Int) (connected : Bool) :
    restart m garbage position fs checkpoint connected =
      some (started fs checkpoint
        (if m.path = map.checkPath then
          min ((stringToInt map.checkPosition).getD garbage) (fs.file new).length
        else (fs.file new).length) ⟨new, (fs.file new).length⟩ connected) := by
  simp only [restart, hmap, openLogFile, hfile, Option.map_some, Option.bind_eq_bind,
    Option.bind_some, reload]
  by_cases hpath : m.path = map.checkPath
  · have hmin : ∀ p : Int, (if ((fs.file new).length : Int) < p then ((fs.file new).length : Int)
        else p) = min p (fs.file new).length := by
      intro p
      split <;> omega
    simp only [if_pos hpath, if_true, hmin]
    rfl
  · simp only [if_neg hpath, Bool.false_eq_true, if_false]
    rfl

/-- The record of this path is found again. -/
theorem restart_eq (path : newline ∉ m.path) (hfile : fs.path = some new) {p : Nat}
    (small : p < 2 ^ 63) (garbage position : Int) (connected : Bool) :
    restart m garbage position fs (some (checkpointLine tTime p m.path)) connected =
      some (started fs (some (checkpointLine tTime p m.path))
        (min p (fs.file new).length : Nat) ⟨new, (fs.file new).length⟩ connected) := by
  have hread : stringToInt (Decimal.print p) = some (p : Int) := by
    rw [stringToInt_print, clamp_of_bounds (by omega) (by omega)]
  rw [restart_eq_started (getcheckpoint_checkpointLine tTime p m.path) hfile,
    upTo_of_not_mem path, if_pos rfl, hread, Option.getD_some, Nat.cast_min]

/-- The position that a start with `-r` takes from the record. -/
def recordedPosition (m : Config) (checkpoint : Option Bytes) : Option Int :=
  (getcheckpoint checkpoint).bind fun map =>
    if m.path = map.checkPath then stringToInt map.checkPosition else none

/-- A record that gives a start no position: it is empty, names another path or is blank
where the position should be. -/
def Dangling (m : Config) (checkpoint : Option Bytes) : Prop :=
  checkpoint.isSome ∧ recordedPosition m checkpoint = none

theorem recordedPosition_readsBack {checkpoint : Option Bytes} {p : Int}
    (h : recordedPosition m checkpoint = some p) : ReadsBack checkpoint p := by
  obtain ⟨map, hmap, hread⟩ := Option.bind_eq_some_iff.mp h
  split at hread
  · exact ⟨map, hmap, hread⟩
  · cases hread

theorem dangling_truncated (m : Config) : Dangling m (some []) := by
  refine ⟨rfl, ?_⟩
  rw [recordedPosition, Option.bind_eq_none_iff]
  rintro map hmap
  obtain rfl := Option.some.inj hmap
  exact ite_self none

theorem recordedPosition_eq {checkpoint : Option Bytes} {map : CheckpointMap}
    (hmap : getcheckpoint checkpoint = some map) :
    recordedPosition m checkpoint =
      if m.path = map.checkPath then stringToInt map.checkPosition else none := by
  rw [recordedPosition, hmap, Option.bind_some]

/-- The record of another configuration is the same if the path is. -/
theorem recordedPosition_congr {m' : Config} (h : m'.path = m.path) (checkpoint : Option Bytes) :
    recordedPosition m' checkpoint = recordedPosition m checkpoint := by
  simp only [recordedPosition, h]

/-- A start goes to a recorded position or, behind a record that gives none, anywhere up to
the end of the file. -/
theorem restart_position {checkpoint : Option Bytes} {garbage position : Int} {connected : Bool}
    {s : State} (hfile : fs.path = some new)
    (h : restart m garbage position fs checkpoint connected = some s) :
    s.position ≤ (fs.file new).length ∧
      (Dangling m checkpoint ∨ ∃ p, recordedPosition m checkpoint = some p ∧ s.position ≤ p) := by
  cases checkpoint with
  | none => cases h
  | some content =>
    obtain ⟨map, hmap⟩ : ∃ map, getcheckpoint (some content) = some map := ⟨_, rfl⟩
    obtain rfl := Option.some.inj ((restart_eq_started hmap hfile _ _ _).symm.trans h)
    have hrecorded := recordedPosition_eq (m := m) hmap
    by_cases hpath : m.path = map.checkPath
    · rw [if_pos hpath] at hrecorded
      simp only [started, if_pos hpath]
      refine ⟨min_le_right _ _, ?_⟩
      cases hread : stringToInt map.checkPosition with
      | none => exact Or.inl ⟨rfl, hrecorded.trans hread⟩
      | some p => exact Or.inr ⟨p, hrecorded.trans hread, min_le_left _ _⟩
    · rw [if_neg hpath] at hrecorded
      simp only [started, if_neg hpath]
      exact ⟨le_refl _, Or.inl ⟨rfl, hrecorded⟩⟩

/-- Behind a record that gives no position a start may go to the end of the file. -/
theorem restart_of_dangling {checkpoint : Option Bytes} (hfile : fs.path = some new)
    (h : Dangling m checkpoint) (connected : Bool) :
    ∃ s, restart m (fs.file new).length 0 fs checkpoint connected = some s ∧
      s.position = (fs.file new).length := by
  obtain ⟨hsome, hnone⟩ := h
  obtain ⟨content, rfl⟩ := Option.isSome_iff_exists.mp hsome
  obtain ⟨map, hmap⟩ : ∃ map, getcheckpoint (some content) = some map := ⟨_, rfl⟩
  refine ⟨_, restart_eq_started hmap hfile _ 0 connected, ?_⟩
  rw [recordedPosition_eq hmap] at hnone
  by_cases hpath : m.path = map.checkPath
  · rw [if_pos hpath] at hnone
    simp [started, hnone]
  · simp [started, if_neg hpath]

theorem opened_restart (hfile : fs.path = some new) (p : Nat) :
    Opened fs new (min p (fs.file new).length) (fs.file new).length :=
  ⟨hfile, Nat.min_le_right _ _, Nat.le_refl _⟩

end

/-- The thread has queued the first lines of the file behind `start`, and nothing
else, and reads no other file. -/
def TailsOnly (m : Config) (ino start : Nat) (s : State) : Prop :=
  s.pushed <+: linesOf m ino start s ∧ ∀ place, s.pc ≠ .readBackupfile place

/-- The law for one step: behind a step that reads the end every line has been queued. -/
def QueuesAll (m : Config) (ino start : Nat) (s : State) (a : Act) : Prop :=
  ∀ ans, a = .thread ans → ReadsEnd s (step m s a) →
    (step m s a).pushed = linesOf m ino start (step m s a)

section

variable {m : Config} {ino start : Nat} {s : State}

theorem Lined.tailsOnly (h : Lined m ino start s) : TailsOnly m ino start s := by
  obtain ⟨⟨_, consumed, rest, hr⟩, _⟩ := h
  constructor
  · rw [hr.pushed, linesOf, hr.records_append, List.nil_append, List.map_append]
    exact List.prefix_append _ _
  · exact hr.not_readBackupfile

theorem tailsOnly_run {acts : List Act} (h : Lined m ino start s)
    (appends : Guarded (step m) (Appends (Terminated newline) ino) s acts) :
    Always (step m) (TailsOnly m ino start) s acts :=
  always_mono (fun _ ht => ht.tailsOnly)
    (invariant_always (fun _ _ ht hrule => lined_step ht hrule) h appends)

/-- With nobody else at work the lines are those of the file as it was at the start. -/
theorem pushed_prefix_threads (h : Lined m ino start s) (answers : List Answer) :
    (run (step m) s (answers.map .thread)).pushed <+: linesOf m ino start s := by
  have hthreads := threadSteps_guarded m s answers
  have hrun := invariant_run (I := fun t => Lined m ino start t ∧ t.fs = s.fs) ?_ ⟨h, rfl⟩ hthreads
  · rw [linesOf, ← hrun.2]
    exact hrun.1.tailsOnly.1
  · rintro t (ans | fs) ⟨hlined, hfs⟩ hthread
    · exact ⟨lined_step hlined trivial, (thread_fs m ans t).trans hfs⟩
    · exact hthread.elim

theorem Lined.queuesAll (h : Lined m ino start s) (a : Act) : QueuesAll m ino start s a := by
  rintro ans rfl hend
  obtain ⟨⟨_, hfollow⟩, hterm⟩ := h
  have hclean := hfollow.cleanRead (fun _ => hterm) (.thread ans)
  obtain ⟨consumed, rest, hr⟩ := hfollow
  exact (reading_readsEnd hr hclean hend).1.linesOf_eq

theorem queuesAll_run {acts : List Act} (h : Lined m ino start s)
    (appends : Guarded (step m) (Appends (Terminated newline) ino) s acts) :
    Guarded (step m) (QueuesAll m ino start) s acts :=
  guarded_of_invariant (fun _ _ ht hrule => lined_step ht hrule) (fun _ a ht _ => ht.queuesAll a)
    h appends

/-- Once nobody writes to the file any more, a poll queues what is left. -/
theorem Lined.endReached (h : Lined m ino start s) :
    Inevitable (step m) Accepting (fun t => CaughtUp t ∧ t.pushed = linesOf m ino start s) s := by
  have hstill : Still m [] ino start s := ⟨h.1.2, h.1.1, h.2⟩
  refine ((still_endReached hstill).keep (fun t a => accepting_fs t a) rfl).mono ?_
  rintro t ⟨⟨hup, consumed, hr⟩, hfs⟩
  refine ⟨hup, ?_⟩
  rw [hr.linesOf_eq, linesOf, linesOf, hfs]

end

/-- A start with `-r` across a rotation, for every record, every old file and
every new file of whole lines, to which whole lines may be appended between any two
steps: the thread follows the new file from the recorded position, or from its end
if it is shorter. In every state it has queued only lines of the new file behind that
point, in order; a step that reads the end has queued all of them; and from every
state, once nobody writes to the file any more and the server accepts, a poll comes
there. Of the old file nothing is sent. -/
theorem restart_tailsOnly (m : Config) (path : newline ∉ m.path) (fs : Fs) {new : Nat}
    (hfile : fs.path = some new) (lines : Terminated newline (fs.file new)) (p : Nat)
    (small : p < 2 ^ 63) (tTime garbage position : Int) (connected : Bool) :
    let start := min p (fs.file new).length
    ∃ s, restart m garbage position fs (some (checkpointLine tTime p m.path)) connected = some s ∧
      s.position = (start : Nat) ∧
      ∀ acts, Guarded (step m) (Appends (Terminated newline) new) s acts →
        Always (step m) (TailsOnly m new start) s acts ∧
        Guarded (step m) (QueuesAll m new start) s acts ∧
        ∀ answers : Nat → Answer, (∀ n, Accepts (answers n)) →
          ∃ n, let t := threadRun m (run (step m) s acts) answers n
            CaughtUp t ∧ t.pushed = linesOf m new start (run (step m) s acts) := by
  intro start
  have hlined := lined_started m (opened_restart hfile p) lines
    (some (checkpointLine tTime p m.path)) connected
  refine ⟨_, restart_eq path hfile small garbage position connected, rfl, ?_⟩
  intro acts appends
  refine ⟨tailsOnly_run hlined appends, queuesAll_run hlined appends, ?_⟩
  exact threadRun_met (invariant_run (fun _ _ ht hrule => lined_step ht hrule) hlined
    appends).endReached

/-- The log was rotated after the line `a` had been acknowledged, and the line `e` is
appended behind the start; the new file is read from the offset of the old one. -/
theorem restart_tailsOnly_longFile :
    ∃ s, restart (shortModel .cxx11) 0 0
        (twoFiles [97, newline, 98, newline] [99, newline, 100, newline])
        (some (checkpointLine 0 (2 : Nat) [112])) true = some s ∧
      ∃ n, (threadRun (shortModel .cxx11) (step (shortModel .cxx11) s
          (.external (s.fs.append 2 [101, newline]))) (fun k => allWell k) n).pushed =
        [liveEntry (shortModel .cxx11) [100], liveEntry (shortModel .cxx11) [101]] := by
  obtain ⟨s, hs, -, hruns⟩ := restart_tailsOnly (shortModel .cxx11) (by decide)
    (twoFiles [97, newline, 98, newline] [99, newline, 100, newline]) rfl (by decide) 2 (by decide)
    0 0 0 true
  obtain rfl := Option.some.inj
    ((restart_eq (by decide) rfl (by decide) 0 0 true).symm.trans hs)
  obtain ⟨-, -, harrive⟩ := hruns [.external (Fs.append _ 2 [101, newline])]
    ⟨⟨rfl, [101, newline], by decide, rfl⟩, trivial⟩
  obtain ⟨n, -, hall⟩ := harrive (fun k => allWell k) fun _ => ⟨rfl, rfl⟩
  exact ⟨_, hs, n, hall.trans (by decide)⟩

/-- The line `b` of the old file and the line `c` of the new one are never sent. -/
theorem not_restart_sendsBoth :
    ∃ s, restart (shortModel .cxx11) 0 0
        (twoFiles [97, newline, 98, newline] [99, newline, 100, newline])
        (some (checkpointLine 0 (2 : Nat) [112])) true = some s ∧
      ∀ answers : List Answer,
        [98] ∉ (run (step (shortModel .cxx11)) s (answers.map .thread)).pushed.map
          (payload (shortModel .cxx11)) ∧
        [99] ∉ (run (step (shortModel .cxx11)) s (answers.map .thread)).pushed.map
          (payload (shortModel .cxx11)) := by
  have opened : Opened (twoFiles [97, newline, 98, newline] [99, newline, 100, newline]) 2
      (min 2 4) 4 := ⟨rfl, by decide, by decide⟩
  have hlined := lined_started (shortModel .cxx11) opened (by decide)
    (some (checkpointLine 0 (2 : Nat) [112])) true
  refine ⟨_, restart_eq (by decide) rfl (by decide) 0 0 true, ?_⟩
  intro answers
  have hlines : records newline [100, newline] = [[100]] := by decide
  have hsent := (pushed_prefix_threads hlined answers).subset
  replace hsent : ∀ le ∈ (run (step (shortModel .cxx11)) _ (answers.map .thread)).pushed,
      le ∈ (records newline [100, newline]).map (liveEntry (shortModel .cxx11)) :=
    fun le => @hsent le
  rw [hlines] at hsent
  constructor
  · intro hmem
    obtain ⟨le, hle, hpayload⟩ := List.mem_map.mp hmem
    rw [List.mem_singleton.mp (hsent le hle), payload_liveEntry] at hpayload
    exact absurd hpayload (by decide)
  · intro hmem
    obtain ⟨le, hle, hpayload⟩ := List.mem_map.mp hmem
    rw [List.mem_singleton.mp (hsent le hle), payload_liveEntry] at hpayload
    exact absurd hpayload (by decide)

end ModelRead
