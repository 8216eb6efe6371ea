import Logtail.Frames
import Logtail.Tailing

/-!
# Which rotations a poll notices

The old stat result at a poll is what the poll before has seen, whatever happened
in between. The comparison is by inode and size only: a file that leads to another
inode is always noticed, a truncation in place only while the new content is
shorter than the old one was.
-/

namespace ModelRead

open Framing FileStream ScribeSend Transitions

/-- The stat result a poll has taken last, `st` before the run. A failed stat
returns nothing. -/
def lastStat (m : Config) : Stat → State → List Act → Stat
  | st, _, [] => st
  | st, s, a :: acts => lastStat m (sees st s a) (step m s a) acts
where
  sees (st : Stat) (s : State) : Act → Stat
    | .external _ => st
    | .thread _ =>
      match s.pc with
      | .stillGood .comparing => s.fs.stat.getD st
      | _ => st

/-- The step takes one of the two rotation branches of `stillGood`. -/
def TakesBranch (m : Config) (ans : Answer) (s : State) : Prop :=
  (thread m ans s).pc = .readBackupfile .opening

/-- Where the thread keeps the last stat result: in `n_stat`, and outside a
rotation branch also in `o_stat`. A poll has a fresh stream. -/
structure Recorded (st : Stat) (s : State) : Prop where
  nStat : s.nStat = st
  place : match s.pc with
    | .readBackupfile _ => ∃ i, s.logreadfile = some (.opened i)
    | .stillGood .telling => ∃ i, s.logreadfile = some (.opened i)
    | .stillGood .comparing => s.oStat = st ∧ ∃ i, s.logreadfile = some (.opened i)
    | _ => s.oStat = st

section

variable {m : Config} {st : Stat} {s : State} {ans : Answer}

theorem recorded_logtailFile (h : Recorded st s) {place : LogtailPc}
    (hpc : s.pc = .logtailFile place) : Recorded st (logtailFile ans s place) := by
  obtain ⟨hn, ho⟩ := h
  rw [hpc] at ho
  cases place with
  | polling => exact ⟨hn, ho⟩
  | checking =>
    simp only [logtailFile]
    split <;> exact ⟨hn, ho⟩
  | sending =>
    simp only [logtailFile]
    split <;> exact ⟨hn, ho⟩
  | reopening => exact ⟨hn, ho⟩
  | waiting tM allNum =>
    simp only [logtailFile]
    split <;> exact ⟨hn, ho⟩

theorem recorded_readBackupfile (h : Recorded st s) {place : BackupPc}
    (hpc : s.pc = .readBackupfile place) : Recorded st (readBackupfile m ans s place) := by
  obtain ⟨hn, ho⟩ := h
  rw [hpc] at ho
  cases place with
  | opening =>
    simp only [readBackupfile]
    split <;> exact ⟨hn, ho⟩
  | sizing ino =>
    simp only [readBackupfile]
    split <;> exact ⟨hn, ho⟩
  | reading ino length => exact ⟨hn, ho⟩
  | splitting lastmsg tM allNum =>
    simp only [readBackupfile]
    split
    · exact ⟨hn, ho⟩
    · split <;> exact ⟨hn, ho⟩
  | sending lastmsg tM allNum =>
    simp only [readBackupfile]
    split <;> exact ⟨hn, ho⟩
  | reopening lastmsg tM allNum => exact ⟨hn, ho⟩
  | waiting lastmsg tM allNum =>
    simp only [readBackupfile]
    split <;> exact ⟨hn, ho⟩

theorem recorded_readLogFile (h : Recorded st s) {place : ReadPc}
    (hpc : s.pc = .readLogFile place) : Recorded st (readLogFile m s place) := by
  obtain ⟨hn, ho⟩ := h
  rw [hpc] at ho
  cases place with
  | seeking => exact ⟨hn, ho⟩
  | getline =>
    cases hf : s.logreadfile with
    | none =>
      simp only [readLogFile, hf]
      exact ⟨hn, ho⟩
    | some f =>
      cases hget : f.getline (s.fs.file f.ino) with
      | mk temp f' =>
        cases temp with
        | none =>
          simp only [readLogFile, hf, hget]
          exact ⟨hn, ho⟩
        | some temp =>
          obtain ⟨pc, hcase, hstep⟩ := readLogFile_getline_some (m := m) hpc hf hget
          rw [hstep]
          rcases hcase with rfl | ⟨rfl, -⟩ <;> exact ⟨hn, ho⟩
  | closing => exact ⟨hn, ho⟩

theorem recorded_writeCheckpoint (h : Recorded st s) {place : CheckpointPc}
    (hpc : s.pc = .writeCheckpoint place) : Recorded st (writeCheckpoint m ans s place) := by
  obtain ⟨hn, ho⟩ := h
  rw [hpc] at ho
  cases place with
  | timing =>
    simp only [writeCheckpoint]
    split <;> exact ⟨hn, ho⟩
  | writing tTime writeInfo => exact ⟨hn, ho⟩

/-- The poll's stat and its comparison with the one before. -/
theorem comparing_cases (ans : Answer) (h : Recorded st s) (hpc : s.pc = .stillGood .comparing) :
    ((∃ now, s.fs.stat = some now ∧ (now.stIno ≠ st.stIno ∨ now.stSize < st.stSize)) ∧
        TakesBranch m ans s ∧ ∃ i, (thread m ans s).logreadfile = some (.opened i)) ∨
      ((∀ now, s.fs.stat = some now → now.stIno = st.stIno ∧ st.stSize ≤ now.stSize) ∧
        (thread m ans s).pc = .readLogFile .seeking ∧
        (thread m ans s).oStat = s.fs.stat.getD st ∧ (thread m ans s).position = s.position) := by
  obtain ⟨hn, ho⟩ := h
  rw [hpc] at ho
  obtain ⟨hold, i, hstream⟩ := ho
  have hnow : s.fs.stat.getD s.nStat = s.fs.stat.getD st := by rw [hn]
  rw [TakesBranch, thread_stillGood m ans hpc]
  simp only [stillGood, hnow, hold]
  cases hrot : rotation (s.fs.stat.getD st) st with
  | none =>
    right
    have hnone := (rotation_eq_none_iff _ _).mp hrot
    refine ⟨?_, rfl, rfl, rfl⟩
    intro now hs
    rwa [hs] at hnone
  | some r =>
    left
    have hseek : (Ifstream.opened i).seekg m.lib 0 = .opened i := Ifstream.seekg_opened m.lib i 0
    refine ⟨?_, rfl, i, by simp [hstream, hseek]⟩
    have hsome := mt (rotation_eq_none_iff (s.fs.stat.getD st) st).mpr (by simp [hrot])
    cases hs : s.fs.stat with
    | none =>
      rw [hs] at hsome
      exact absurd ⟨rfl, Nat.le_refl _⟩ hsome
    | some now =>
      rw [hs, Option.getD_some] at hsome
      refine ⟨now, rfl, ?_⟩
      by_cases hino : now.stIno = st.stIno
      · right
        by_contra hsize
        exact hsome ⟨hino, by omega⟩
      · exact Or.inl hino

theorem recorded_stillGood (h : Recorded st s) {place : StillGoodPc}
    (hpc : s.pc = .stillGood place) :
    Recorded (lastStat.sees st s (.thread ans)) (thread m ans s) := by
  cases place with
  | opening sleepM =>
    obtain ⟨hn, ho⟩ := h
    rw [hpc] at ho
    rw [lastStat.sees, hpc, thread_stillGood m ans hpc]
    simp only [stillGood]
    split
    · exact ⟨hn, ho, _, rfl⟩
    · exact ⟨hn, ho⟩
  | comparing =>
    have hn : (thread m ans s).nStat = s.fs.stat.getD st := by
      rw [thread_stillGood m ans hpc, ← h.nStat]
      simp only [stillGood]
      split <;> rfl
    rw [lastStat.sees, hpc]
    refine ⟨hn, ?_⟩
    rcases comparing_cases (m := m) ans h hpc with ⟨-, hbranch, hstream⟩ | ⟨-, hp, ho, -⟩
    · rw [hbranch]
      exact hstream
    · rw [hp]
      exact ho
  | telling =>
    rw [lastStat.sees, hpc, thread_stillGood m ans hpc]
    exact ⟨(State.tell_nStat m s).trans h.nStat, h.nStat⟩

theorem recorded_step (h : Recorded st s) (a : Act) :
    Recorded (lastStat.sees st s a) (step m s a) := by
  cases a with
  | external fs => exact ⟨h.nStat, h.place⟩
  | thread ans =>
    cases hp : s.pc with
    | logtailFile place =>
      rw [lastStat.sees, hp, step, thread_logtailFile m ans hp]
      exact recorded_logtailFile h hp
    | stillGood place => exact recorded_stillGood h hp
    | readBackupfile place =>
      rw [lastStat.sees, hp, step, thread_readBackupfile m ans hp]
      exact recorded_readBackupfile h hp
    | readLogFile place =>
      rw [lastStat.sees, hp, step, thread_readLogFile m ans hp]
      exact recorded_readLogFile h hp
    | writeCheckpoint place =>
      rw [lastStat.sees, hp, step, thread_writeCheckpoint m ans hp]
      exact recorded_writeCheckpoint h hp

theorem recorded_run (h : Recorded st s) (acts : List Act) :
    Recorded (lastStat m st s acts) (run (step m) s acts) := by
  induction acts generalizing st s with
  | nil => exact h
  | cons a acts ih => exact ih (recorded_step h a)

end

/-- No stat of a poll is among these steps. -/
def NoStat (s : State) : Act → Prop
  | .external _ => True
  | .thread _ => s.pc ≠ .stillGood .comparing

theorem sees_of_noStat {st : Stat} {s : State} {a : Act} (h : NoStat s a) :
    lastStat.sees st s a = st := by
  cases a with
  | external fs => rfl
  | thread ans =>
    rw [lastStat.sees]
    split
    · rename_i hpc
      exact absurd hpc h
    · rfl

theorem lastStat_of_noStat {m : Config} {st : Stat} {s : State} {acts : List Act}
    (h : Guarded (step m) NoStat s acts) : lastStat m st s acts = st := by
  induction acts generalizing s with
  | nil => rfl
  | cons a acts ih =>
    rw [lastStat, sees_of_noStat h.1]
    exact ih h.2

/-- `readLogFile` goes on behind `stillGood`. -/
def BehindStillGood (s : State) : Prop := s.pc = .readLogFile .seeking

/-- In a rotation branch with the stream rewound, or behind it at position 0. -/
def Rewinding (s : State) : Prop :=
  (((∃ place, s.pc = .readBackupfile place) ∨ s.pc = .stillGood .telling) ∧
      ∃ i, s.logreadfile = some (.opened i)) ∨
    (BehindStillGood s ∧ s.position = 0)

section

variable {m : Config} {s : State}

theorem rewinding_step {a : Act} (h : Rewinding s) (before : ¬ BehindStillGood s) :
    Rewinding (step m s a) := by
  rcases h with ⟨hplace, i, hstream⟩ | ⟨hdone, -⟩
  · cases a with
    | external fs => exact Or.inl ⟨hplace, i, hstream⟩
    | thread ans =>
      rcases hplace with ⟨place, hp⟩ | hp
      · obtain ⟨hstay, hsame⟩ := readBackupfile_stays m ans s place
        rw [step, thread_readBackupfile m ans hp]
        exact Or.inl ⟨hstay, i, hsame.trans hstream⟩
      · have hgood : (Ifstream.opened i).good = true := rfl
        rw [step, thread_stillGood m ans hp]
        refine Or.inr ⟨rfl, ?_⟩
        simp only [stillGood, State.tell, hstream, Ifstream.tellg_good m.lib hgood]
        rfl
  · exact absurd hdone before

/-- A rotation branch sets the position to 0. -/
theorem position_reset {acts : List Act} (h : Rewinding s)
    (returns : Until (step m) BehindStillGood s acts) :
    (run (step m) s acts).position = 0 := by
  have hrun := invariant_run (G := fun t _ => ¬ BehindStillGood t)
    (fun t a ht hg => rewinding_step (a := a) ht hg) h returns.2
  rcases hrun with ⟨⟨place, hp⟩ | hp, -⟩ | ⟨-, hpos⟩
  · have hend := returns.1
    rw [BehindStillGood, hp] at hend
    cases hend
  · have hend := returns.1
    rw [BehindStillGood, hp] at hend
    cases hend
  · exact hpos

end

theorem recorded_started (fs : Fs) (checkpoint : Option Bytes) (position : Int) (oStat : Stat)
    (connected : Bool) : Recorded oStat (started fs checkpoint position oStat connected) :=
  ⟨rfl, rfl⟩

/-- Until the next poll the last stat result is the one this poll takes. -/
theorem recorded_between {m : Config} {st : Stat} {s : State} {ans : Answer} {ino : Nat}
    {between : List Act} (h : Recorded st s) (hpc : s.pc = .stillGood .comparing)
    (path : s.fs.path = some ino) (nostat : Guarded (step m) NoStat (thread m ans s) between) :
    Recorded ⟨ino, (s.fs.file ino).length⟩ (run (step m) (thread m ans s) between) := by
  have hsees : lastStat.sees st s (.thread ans) = ⟨ino, (s.fs.file ino).length⟩ := by
    simp [lastStat.sees, hpc, Fs.stat, path]
  have hstep := recorded_step (m := m) h (.thread ans)
  rw [hsees] at hstep
  have hrun := recorded_run (m := m) hstep between
  rwa [step, lastStat_of_noStat nostat] at hrun

/-- What a poll does, against the stat result of the poll before. -/
theorem takesBranch_iff {m : Config} {s : State} (ans : Answer) {ino size : Nat}
    (h : Recorded ⟨ino, size⟩ s) (hpc : s.pc = .stillGood .comparing) :
    TakesBranch m ans s ↔
      ∃ now, s.fs.stat = some now ∧ (now.stIno ≠ ino ∨ now.stSize < size) := by
  rcases comparing_cases (m := m) ans h hpc with
    ⟨hnow, hbranch, -⟩ | ⟨hnow, hseek, -, -⟩
  · exact ⟨fun _ => hnow, fun _ => hbranch⟩
  · constructor
    · intro hbranch
      rw [TakesBranch, hseek] at hbranch
      cases hbranch
    · rintro ⟨now, hstat, hdiff⟩
      obtain ⟨hino, hsize⟩ := hnow now hstat
      rcases hdiff with hdiff | hdiff
      · exact absurd hino hdiff
      · simp only at hsize
        omega

/-- In every run, for two consecutive polls, with anything done by the thread and
by others between them: the second takes a rotation branch if `path` then leads to
another inode; if it leads to the same inode, exactly when the file is shorter
than at the first poll, so never after appends. A branch sets the position to 0,
and a poll that takes none leaves it alone. -/
theorem rotation_noticed_iff (m : Config) (fs : Fs) (checkpoint : Option Bytes) (position : Int)
    (oStat : Stat) (connected : Bool) (acts between : List Act) (ans ans' : Answer) {ino : Nat}
    (first : (run (step m) (started fs checkpoint position oStat connected) acts).pc =
      .stillGood .comparing)
    (path : (run (step m) (started fs checkpoint position oStat connected) acts).fs.path =
      some ino)
    (nostat : Guarded (step m) NoStat
      (thread m ans (run (step m) (started fs checkpoint position oStat connected) acts)) between)
    (second : (run (step m) (thread m ans
      (run (step m) (started fs checkpoint position oStat connected) acts)) between).pc =
        .stillGood .comparing) :
    let old := (run (step m) (started fs checkpoint position oStat connected) acts).fs.file ino
    let s := run (step m) (thread m ans
      (run (step m) (started fs checkpoint position oStat connected) acts)) between
    (∀ new, new ≠ ino → s.fs.path = some new → TakesBranch m ans' s) ∧
    (s.fs.path = some ino →
      (TakesBranch m ans' s ↔ (s.fs.file ino).length < old.length)) ∧
    (s.fs.path = some ino → old <+: s.fs.file ino → ¬ TakesBranch m ans' s) ∧
    (TakesBranch m ans' s → ∀ more, Until (step m) BehindStillGood (thread m ans' s) more →
      (run (step m) (thread m ans' s) more).position = 0) ∧
    (¬ TakesBranch m ans' s →
      BehindStillGood (thread m ans' s) ∧ (thread m ans' s).position = s.position) := by
  intro old s
  have h : Recorded ⟨ino, old.length⟩ s :=
    recorded_between (recorded_run (recorded_started fs checkpoint position oStat connected) acts)
      first path nostat
  have hbranch := takesBranch_iff (m := m) ans' h second
  have hsame : s.fs.path = some ino →
      (TakesBranch m ans' s ↔ (s.fs.file ino).length < old.length) := by
    intro hpath
    simp [hbranch, Fs.stat, hpath]
  refine ⟨?_, hsame, ?_, ?_, ?_⟩
  · intro new hne hpath
    exact hbranch.mpr ⟨⟨new, (s.fs.file new).length⟩, by simp [Fs.stat, hpath], Or.inl hne⟩
  · intro hpath happended htakes
    have hlen := happended.length_le
    have hshort := (hsame hpath).mp htakes
    omega
  · intro htakes more returns
    rcases comparing_cases (m := m) ans' h second with ⟨-, hp, hstream⟩ | ⟨-, hp, -, -⟩
    · exact position_reset (Or.inl ⟨Or.inl ⟨_, hp⟩, hstream⟩) returns
    · rw [TakesBranch, hp] at htakes
      cases htakes
  · intro hnot
    rcases comparing_cases (m := m) ans' h second with ⟨-, hp, -⟩ | ⟨-, hp, -, hpos⟩
    · exact absurd hp hnot
    · exact ⟨hp, hpos⟩

/-- From one poll's stat to the next, with a change of the file system in between. -/
def pollThen (fs : Fs) : List Act :=
  List.replicate 7 (.thread (allWell 1)) ++ .external fs :: List.replicate 2 (.thread (allWell 1))

/-- A renamed and recreated file is noticed, however much it already holds. -/
theorem rotation_noticed_renamed :
    TakesBranch (shortModel .cxx11) (allWell 1)
      (run (step (shortModel .cxx11)) (thread (shortModel .cxx11) (allWell 1)
        (run (step (shortModel .cxx11)) (started (oneFile 7 [97, newline]) none 0 ⟨7, 2⟩ true)
          (List.replicate 2 (.thread (allWell 1)))))
        (pollThen (((oneFile 7 [97, newline]).rename.create 8).append 8
          [98, newline, 99, newline]))) := by
  refine (rotation_noticed_iff (shortModel .cxx11) (oneFile 7 [97, newline]) none 0 ⟨7, 2⟩ true
    (List.replicate 2 (.thread (allWell 1))) _ (allWell 1) (allWell 1) rfl rfl ?_ rfl).1 8
    (by decide) rfl
  exact ⟨nofun, nofun, nofun, nofun, nofun, nofun, nofun, trivial, nofun, nofun, trivial⟩

/-- A file that is copied away, truncated in place and then grows to its old size
again before the next poll is not noticed. -/
theorem not_rotation_noticed_regrown :
    (run (step (shortModel .cxx11)) (thread (shortModel .cxx11) (allWell 1)
      (run (step (shortModel .cxx11)) (started (oneFile 7 [97, newline]) none 0 ⟨7, 2⟩ true)
        (List.replicate 2 (.thread (allWell 1)))))
      (pollThen ((oneFile 7 [97, newline]).copyTruncate 8 7 [98, newline]))).pc =
        .stillGood .comparing ∧
    ¬ TakesBranch (shortModel .cxx11) (allWell 1)
      (run (step (shortModel .cxx11)) (thread (shortModel .cxx11) (allWell 1)
        (run (step (shortModel .cxx11)) (started (oneFile 7 [97, newline]) none 0 ⟨7, 2⟩ true)
          (List.replicate 2 (.thread (allWell 1)))))
        (pollThen ((oneFile 7 [97, newline]).copyTruncate 8 7 [98, newline]))) := by
  exact ⟨rfl, nofun⟩

end ModelRead
