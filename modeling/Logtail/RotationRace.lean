import Logtail.LineFraming
import Logtail.LosslessRotation

/-!
# A rotation that races with a poll

`stillGood` opens the file and takes its stat by name, in two steps. One rotation
by another process may fall between any two steps of the thread. As long as each
stat finds the inode that has just been opened, the messages carry the lines of
the old file and then those of the new one; a rotation between the two steps makes
the thread read the old file again and leave out the head of the new one.
-/

namespace ModelRead

open Framing FileStream ScribeSend Transitions Inevitability

/-- What the other process does in the course of one rotation: it writes to the
old file, renames it, creates the new one and logs whole lines to it. -/
inductive RotationStep (old new : Nat) (fs : Fs) : Fs → Prop where
  | write (bytes : Bytes) : fs.path = some old → RotationStep old new fs (fs.append old bytes)
  | rename : fs.path = some old → RotationStep old new fs fs.rename
  | create : fs.path = none → RotationStep old new fs (fs.create new)
  | log (lines : Bytes) : fs.path = some new → Terminated newline lines →
    RotationStep old new fs (fs.append new lines)

def Rotates (old new : Nat) (s : State) : Act → Prop
  | .thread _ => True
  | .external fs => RotationStep old new s.fs fs

/-- The stat finds the inode that `path` led to at the open before it. -/
def SameFile (s : State) : Act → Prop
  | .external _ => True
  | .thread _ =>
    s.pc = .stillGood .comparing → ∀ f, s.logreadfile = some f → s.fs.path = some f.ino

/-- Nothing goes wrong in the step: the poll has one file before it, and both
readers find whole lines. -/
structure Tidy (s : State) (a : Act) : Prop where
  same : SameFile s a
  live : CleanRead s a
  backup : CleanBackup s a

/-- The lines of the old file from `start` on, and those of the new one as soon as
it has its name. -/
def dueLines (old new start : Nat) (s : State) : List Bytes :=
  pieces newline ((s.fs.file old).drop start) ++
    if s.fs.path = some new then records newline (s.fs.file new) else []

/-- The law for one step: the payloads are an initial part of the lines due, and
all of them when a poll reads the end of the file that `path` leads to. -/
def RaceLaw (m : Config) (old new start : Nat) (s : State) (a : Act) : Prop :=
  let s' := step m s a
  s'.pushed.map (payload m) <+: dueLines old new start s' ∧
    ∀ ans f, a = .thread ans → ReadsEnd s s' → s'.logreadfile = some f →
      s'.fs.path = some f.ino → s'.pushed.map (payload m) = dueLines old new start s'

/-- The names before, during and after the rotation. -/
inductive Names (old new : Nat) (fs : Fs) : Prop where
  | before (path : fs.path = some old)
  | between (path : fs.path = none) (backup : fs.backupPath = some old)
  | after (path : fs.path = some new) (backup : fs.backupPath = some old)
    (lines : Terminated newline (fs.file new))

/-- No stat has shown the rotation yet: the thread follows the old file, or has
just opened the new one. -/
structure Unnoticed (m : Config) (old new start : Nat) (s : State) : Prop where
  names : Names old new s.fs
  place : Following m [] old start s ∨
    (s.pc = .stillGood .comparing ∧ s.fs.path = some new ∧ s.logreadfile = some (.opened new) ∧
      Following m [] old start { s with logreadfile := some (.opened old) })

/-- A stat has shown the rotation at the position `pos` of the old file, with
`base` queued until then. -/
structure Noticed (m : Config) (old new start : Nat) (s : State) : Prop where
  path : s.fs.path = some new
  lines : Terminated newline (s.fs.file new)
  catching : ∃ base pos,
    base.map (payload m) ++ pieces newline ((s.fs.file old).drop pos) =
      pieces newline ((s.fs.file old).drop start) ∧
    Catching m base old new (s.fs.file old) pos s

def Racing (m : Config) (old new start : Nat) (s : State) : Prop :=
  Unnoticed m old new start s ∨ Noticed m old new start s

section rotation

variable {old new : Nat} {fs fs' : Fs}

theorem Names.of_new (distinct : new ≠ old) (h : Names old new fs) (hpath : fs.path = some new) :
    fs.backupPath = some old ∧ Terminated newline (fs.file new) := by
  cases h with
  | before path => exact absurd (Option.some.inj (hpath.symm.trans path)) distinct
  | between path backup =>
    rw [hpath] at path
    cases path
  | after path backup lines => exact ⟨backup, lines⟩

theorem names_step (distinct : new ≠ old) (h : Names old new fs)
    (rotates : RotationStep old new fs fs') : Names old new fs' := by
  cases rotates with
  | write bytes hp => exact .before hp
  | rename hp => exact .between rfl hp
  | create hp =>
    cases h with
    | before path =>
      rw [hp] at path
      cases path
    | between path backup => exact .after rfl backup (by simp [Fs.create, Terminated])
    | after path backup lines =>
      rw [hp] at path
      cases path
  | log bytes hp hbytes =>
    obtain ⟨backup, lines⟩ := h.of_new distinct hp
    refine .after hp backup ?_
    rw [Fs.append_file_self]
    exact (terminated_append lines).mpr hbytes

/-- The old file only grows. -/
theorem old_grows (distinct : new ≠ old) (rotates : RotationStep old new fs fs') :
    ∃ bytes, fs'.file old = fs.file old ++ bytes := by
  cases rotates with
  | write bytes hp => exact ⟨bytes, Fs.append_file_self fs old bytes⟩
  | rename hp => exact ⟨[], by simp [Fs.rename]⟩
  | create hp => exact ⟨[], by simp [Fs.create, Fs.write_file_of_ne fs distinct.symm]⟩
  | log bytes hp hbytes => exact ⟨[], by simp [Fs.append_file_of_ne fs distinct.symm]⟩

/-- Behind the rotation only the new file is written to. -/
theorem log_of_new (distinct : new ≠ old) (hpath : fs.path = some new)
    (rotates : RotationStep old new fs fs') :
    ∃ bytes, Terminated newline bytes ∧ fs' = fs.append new bytes := by
  cases rotates with
  | write bytes hp => exact absurd (Option.some.inj (hpath.symm.trans hp)) distinct
  | rename hp => exact absurd (Option.some.inj (hpath.symm.trans hp)) distinct
  | create hp =>
    rw [hpath] at hp
    cases hp
  | log bytes hp hbytes => exact ⟨bytes, hbytes, rfl⟩

end rotation

section

variable {m : Config} {base : List LogEntry} {old new start : Nat} {O : Bytes} {pos : Nat}
  {lines : List Bytes → Prop} {s : State} {ans : Answer}

theorem Following.external {ino : Nat} (h : Following m base ino start s) {fs : Fs} {bytes : Bytes}
    (hfile : fs.file ino = s.fs.file ino ++ bytes) :
    Following m base ino start { s with fs := fs } := by
  obtain ⟨consumed, rest, hr⟩ := h
  exact ⟨consumed, rest ++ bytes, hr.external hfile⟩

theorem Rotating.log (h : Rotating old new O pos s) (distinct : new ≠ old) (bytes : Bytes) :
    Rotating old new O pos { s with fs := s.fs.append new bytes } where
  backup := h.backup
  content := by rw [Fs.append_file_of_ne s.fs distinct.symm, h.content]
  inside := h.inside
  position := h.position
  stream := h.stream
  same := h.same
  grown := by
    have := h.grown
    simp only [Fs.append_file_self, List.length_append]
    omega

theorem Catching.log (h : Catching m base old new O pos s) (distinct : new ≠ old) (bytes : Bytes) :
    Catching m base old new O pos { s with fs := s.fs.append new bytes } := by
  rcases h with hf | hq | ⟨done, hdone, hfollow⟩
  · exact Or.inl ⟨hf.rotating.log distinct bytes, hf.pushed, hf.place⟩
  · exact Or.inr (Or.inl ⟨hq.rotating.log distinct bytes, hq.queued⟩)
  · exact Or.inr (Or.inr ⟨done, hdone, hfollow.external (Fs.append_file_self s.fs new bytes)⟩)

theorem racing_external {fs : Fs} (h : Racing m old new start s) (distinct : new ≠ old)
    (rotates : RotationStep old new s.fs fs) : Racing m old new start { s with fs := fs } := by
  rcases h with hu | hn
  · left
    obtain ⟨bytes, hold⟩ := old_grows distinct rotates
    refine ⟨names_step distinct hu.names rotates, ?_⟩
    rcases hu.place with hfollow | ⟨hpc, hpath, hstream, hfollow⟩
    · exact Or.inl (hfollow.external hold)
    · obtain ⟨_, _, rfl⟩ := log_of_new distinct hpath rotates
      exact Or.inr ⟨hpc, hpath, hstream, hfollow.external hold⟩
  · right
    obtain ⟨bytes, hbytes, rfl⟩ := log_of_new distinct hn.path rotates
    obtain ⟨base, pos, hlines, hcatching⟩ := hn.catching
    have hold := Fs.append_file_of_ne s.fs distinct.symm bytes
    refine ⟨hn.path, ?_, base, pos, ?_, ?_⟩
    · rw [Fs.append_file_self]
      exact (terminated_append hn.lines).mpr hbytes
    · simpa only [hold] using hlines
    · simp only [hold]
      exact hcatching.log distinct bytes

/-- The stat of the new file behind its open shows the rotation. -/
theorem noticed_of_comparing (distinct : new ≠ old) (hpc : s.pc = .stillGood .comparing)
    (hpath : s.fs.path = some new) (hbackup : s.fs.backupPath = some old)
    (hlines : Terminated newline (s.fs.file new)) (hstream : s.logreadfile = some (.opened new))
    (h : Following m [] old start { s with logreadfile := some (.opened old) }) :
    Noticed m old new start (thread m ans s) := by
  obtain ⟨consumed, rest, hr⟩ := h
  have hlen := hr.start_length
  have hnoticed : rotation ⟨new, (s.fs.file new).length⟩ s.oStat ≠ none := by
    intro hnone
    have hsame := ((rotation_eq_none_iff _ _).mp hnone).1
    exact distinct (hsame.trans hr.same)
  have happroaching : Approaching s.pushed old new (start + consumed.length) s := by
    refine ⟨hpath, hbackup, hnoticed, ?_, ?_, rfl, Or.inr (Or.inr ⟨hpc, hstream⟩)⟩
    · exact hr.position.trans (by rw [Nat.cast_add])
    · simp only at hlen
      omega
  have hfs := thread_fs m ans s
  refine ⟨by rw [hfs, hpath], by rwa [hfs], s.pushed, start + consumed.length, ?_, ?_⟩
  · have hrest := hr.drop_position
    have hcontent := hr.content
    have hpushed := hr.pushed
    simp only [State.pushed] at hrest hcontent hpushed
    rw [hfs, hrest, hcontent, pieces_append hr.complete, State.pushed, hpushed, List.nil_append,
      map_payload_liveEntry]
  · rw [hfs]
    rcases approaching_thread (m := m) ans happroaching with ⟨-, hlt⟩ | hf
    · have hzero : toStat s = 0 := by simp [toStat, hpc]
      omega
    · exact Or.inl hf

theorem unnoticed_thread (h : Unnoticed m old new start s) (distinct : new ≠ old)
    (same : SameFile s (.thread ans)) (clean : CleanRead s (.thread ans)) :
    Racing m old new start (thread m ans s) := by
  obtain ⟨hnames, hfollow | ⟨hpc, hpath, hstream, hfollow⟩⟩ := h
  · have hnames' : Names old new (thread m ans s).fs := by rwa [thread_fs]
    left
    refine ⟨hnames', ?_⟩
    by_cases hnew : (∃ sleepM, s.pc = .stillGood (.opening sleepM)) ∧ s.fs.path = some new
    · -- the poll opens the new file, the thread still stands in the old one
      obtain ⟨⟨sleepM, hpc⟩, hpath⟩ := hnew
      obtain ⟨consumed, rest, hr⟩ := hfollow
      right
      rw [thread_stillGood m ans hpc]
      simp only [stillGood, hpath]
      exact ⟨rfl, hpath, rfl, consumed, rest, hr.kept rfl rfl rfl rfl rfl⟩
    · left
      apply following_thread hfollow clean
      · intro sleepM hpc i hi
        cases hnames with
        | before path => exact Option.some.inj (hi.symm.trans path)
        | between path backup =>
          rw [path] at hi
          cases hi
        | after path backup lines => exact absurd ⟨⟨sleepM, hpc⟩, path⟩ hnew
      · intro hpc
        obtain ⟨consumed, rest, hr⟩ := hfollow
        exact same hpc _ (hr.at_comparing hpc)
  · obtain ⟨hbackup, hlines⟩ := hnames.of_new distinct hpath
    exact Or.inr (noticed_of_comparing distinct hpc hpath hbackup hlines hstream hfollow)

theorem noticed_thread (h : Noticed m old new start s) (clean : CleanBackup s (.thread ans)) :
    Noticed m old new start (thread m ans s) := by
  obtain ⟨hpath, hlines, base, pos, hdue, hcatching⟩ := h
  have hfs := thread_fs m ans s
  refine ⟨by rw [hfs, hpath], by rwa [hfs], base, pos, by rwa [hfs], ?_⟩
  rw [hfs]
  exact catching_thread hcatching hpath hlines clean

theorem racing_step {a : Act} (h : Racing m old new start s) (distinct : new ≠ old)
    (rotates : Rotates old new s a) (tidy : Tidy s a) : Racing m old new start (step m s a) := by
  cases a with
  | external fs => exact racing_external h distinct rotates
  | thread ans =>
    rcases h with hu | hn
    · exact unnoticed_thread hu distinct tidy.same tidy.live
    · exact Or.inr (noticed_thread hn tidy.backup)

theorem racing_started (m : Config) (new : Nat) {fs : Fs} {size : Nat}
    (opened : Opened fs old start size)
    (checkpoint : Option Bytes) (connected : Bool) :
    Racing m old new start (started fs checkpoint start ⟨old, size⟩ connected) :=
  Or.inl ⟨.before opened.path, Or.inl (tailed_started m opened checkpoint connected).2⟩

theorem Following.payloads_isPrefix (h : Following m [] old start s) :
    s.pushed.map (payload m) <+: dueLines old new start s := by
  obtain ⟨consumed, rest, hr⟩ := h
  rw [hr.payloads, dueLines, hr.content, pieces_append hr.complete, List.append_assoc]
  exact List.prefix_append _ _

theorem Racing.payloads_isPrefix (h : Racing m old new start s) :
    s.pushed.map (payload m) <+: dueLines old new start s := by
  rcases h with ⟨hnames, hfollow | ⟨-, -, -, hfollow⟩⟩ | hn
  · exact hfollow.payloads_isPrefix
  · exact hfollow.payloads_isPrefix
  · obtain ⟨base, pos, hdue, hcatching⟩ := hn.catching
    obtain ⟨more, hpushed, hmore⟩ := hcatching.pushed_since
    rw [dueLines, if_pos hn.path, ← hdue, hpushed, List.map_append, List.append_assoc]
    exact (List.prefix_append_right_inj _).mpr hmore

/-- At the end of the file that `path` leads to, nothing that is due is missing. -/
theorem Racing.payloads_at_end (h : Racing m old new start s) (distinct : new ≠ old)
    (clean : CleanRead s (.thread ans)) (hend : ReadsEnd s (thread m ans s)) {f : Ifstream}
    (hf : (thread m ans s).logreadfile = some f) (hpath : s.fs.path = some f.ino) :
    (thread m ans s).pushed.map (payload m) = dueLines old new start (thread m ans s) := by
  have hfs := thread_fs m ans s
  rcases h with ⟨-, ⟨consumed, rest, hr⟩ | ⟨hpc, -⟩⟩ | hn
  · obtain ⟨hr', hstream⟩ := reading_readsEnd hr clean hend
    obtain rfl := Option.some.inj (hf.symm.trans hstream)
    have hnew : (thread m ans s).fs.path ≠ some new := by
      rw [hfs, hpath]
      exact fun heq => distinct (Option.some.inj heq).symm
    have hcontent := hr'.content
    rw [List.append_nil] at hcontent
    rw [hr'.payloads, dueLines, if_neg hnew, List.append_nil, hcontent,
      pieces_of_terminated hr.complete]
  · rw [hend.1] at hpc
    cases hpc
  · obtain ⟨base, pos, hdue, hcatching⟩ := hn.catching
    obtain ⟨done, rfl, consumed, rest, hr⟩ :=
      (hcatching.rotated (Or.inl ⟨_, hend.1⟩)).following (Or.inl ⟨_, hend.1⟩)
    obtain ⟨hr', -⟩ := reading_readsEnd hr clean hend
    obtain ⟨more, hpushed, hmore⟩ := hr'.pushed_since fun w hw => not_mem_of_mem_pieces hw
    have hrecords := hr'.records_append
    rw [List.drop_zero, records_nil, List.append_nil] at hrecords
    rw [dueLines, hfs, if_pos hn.path, ← hdue, hpushed, List.map_append, hmore, ← hrecords, hfs,
      List.append_assoc]

theorem raceLaw_of_tidy {a : Act} (h : Racing m old new start s) (distinct : new ≠ old)
    (rotates : Rotates old new s a) (tidy : Tidy s a) : RaceLaw m old new start s a := by
  refine ⟨(racing_step h distinct rotates tidy).payloads_isPrefix, ?_⟩
  rintro ans f rfl hend hf hpath
  rw [step, thread_fs] at hpath
  exact h.payloads_at_end distinct tidy.live hend hf hpath

/-- The thread neither reads the file nor has opened it for the next stat. -/
def BetweenReads (s : State) : Prop :=
  match s.pc with
  | .logtailFile _ => True
  | .stillGood (.opening _) => True
  | .readLogFile .closing => True
  | .writeCheckpoint _ => True
  | _ => False

/-- Steps to the next stat, at most. -/
def toCompare (ino : Nat) (s : State) : Nat :=
  match s.pc with
  | .stillGood .comparing => 0
  | .readLogFile .seeking => 11 + unread ino s
  | .readLogFile .getline => 10 + unread ino s
  | _ => distance s

theorem toCompare_of_betweenReads (h : BetweenReads s) (ino : Nat) :
    toCompare ino s = distance s := by
  rw [BetweenReads] at h
  split at h
  · simp [toCompare, *]
  · simp [toCompare, *]
  · simp [toCompare, *]
  · simp [toCompare, *]
  · exact h.elim

theorem betweenReads_thread (m : Config) (ans : Answer) (h : BetweenReads s) :
    BetweenReads (thread m ans s) ∨ (thread m ans s).pc = .stillGood .comparing := by
  rw [BetweenReads] at h
  cases hp : s.pc with
  | logtailFile place =>
    left
    rw [thread_logtailFile m ans hp]
    rcases logtailFile_stays ans s place with ⟨place', hp'⟩ | hp'
    · simp [BetweenReads, hp']
    · simp [BetweenReads, hp']
  | stillGood place =>
    rw [thread_stillGood m ans hp]
    cases place with
    | opening sleepM =>
      simp only [stillGood]
      split
      · exact Or.inr rfl
      · exact Or.inl trivial
    | comparing => simp [hp] at h
    | telling => simp [hp] at h
  | readBackupfile place => simp [hp] at h
  | readLogFile place =>
    rw [thread_readLogFile m ans hp]
    cases place with
    | seeking => simp [hp] at h
    | getline => simp [hp] at h
    | closing => exact Or.inl trivial
  | writeCheckpoint place =>
    left
    rw [thread_writeCheckpoint m ans hp]
    cases place with
    | timing =>
      simp only [writeCheckpoint]
      split <;> trivial
    | writing tTime writeInfo => trivial

theorem toCompare_betweenReads {ino : Nat} {consumed rest : Bytes}
    (h : Reading m base ino start consumed rest s) (haccepts : Accepts ans)
    (hbetween : BetweenReads s) (hpath : s.fs.path = some new) :
    toCompare ino (thread m ans s) < toCompare ino s := by
  have hread : s.pc ≠ .readLogFile .getline := by
    intro hp
    rwa [BetweenReads, hp] at hbetween
  have hstat : s.pc = .stillGood .comparing → s.fs.path = some ino := by
    intro hp
    rw [BetweenReads, hp] at hbetween
    exact hbetween.elim
  have hlt := distance_quiet h (fun _ _ => ⟨new, hpath⟩) hstat haccepts hread
  rw [toCompare_of_betweenReads hbetween]
  rcases betweenReads_thread m ans hbetween with hb | hp
  · rwa [toCompare_of_betweenReads hb]
  · have hzero : toCompare ino (thread m ans s) = 0 := by simp [toCompare, hp]
    omega

/-- Behind the rotation every step comes nearer to the stat that shows it. -/
theorem unnoticed_progress (h : Unnoticed m old new start s) (distinct : new ≠ old)
    (hpath : s.fs.path = some new) (haccepts : Accepts ans) (tidy : Tidy s (.thread ans)) :
    Noticed m old new start (thread m ans s) ∨
      toCompare old (thread m ans s) < toCompare old s := by
  obtain ⟨hnames, ⟨consumed, rest, hr⟩ | ⟨hpc, -, hstream, hfollow⟩⟩ := h
  · right
    have hbetween := fun hb : BetweenReads s => toCompare_betweenReads hr haccepts hb hpath
    cases hp : s.pc with
    | logtailFile place => exact hbetween (by simp [BetweenReads, hp])
    | stillGood place =>
      cases place with
      | opening sleepM => exact hbetween (by simp [BetweenReads, hp])
      | comparing =>
        have hsame := tidy.same hp _ (hr.at_comparing hp)
        exact absurd (Option.some.inj (hpath.symm.trans hsame)) distinct
      | telling => exact absurd hp hr.not_telling
    | readBackupfile place => exact absurd hp (hr.not_readBackupfile place)
    | readLogFile place =>
      cases place with
      | seeking =>
        rw [thread_readLogFile m ans hp]
        simp [toCompare, hp, readLogFile, unread]
      | getline =>
        rcases reading_getline_cases hr hp tidy.live with rfl | ⟨line, rest', rfl, hline⟩
        · obtain ⟨-, -, hp'⟩ := reading_getline_end hr hp ans
          simp only [toCompare, hp, hp', distance]
          omega
        · obtain ⟨hr', -, -, -, hp' | ⟨hp', -⟩⟩ := reading_getline_record hr hp hline ans
          · simp only [toCompare, hp, hp', hr.unread_eq, hr'.unread_eq, List.length_append,
              List.length_cons]
            omega
          · simp only [toCompare, hp, hp', distance]
            omega
      | closing => exact hbetween (by simp [BetweenReads, hp])
    | writeCheckpoint place => exact hbetween (by simp [BetweenReads, hp])
  · obtain ⟨hbackup, hlines⟩ := hnames.of_new distinct hpath
    exact Or.inl (noticed_of_comparing distinct hpc hpath hbackup hlines hstream hfollow)

/-- A tidy step of the thread, with a server that accepts. -/
def Undisturbed (s : State) (a : Act) : Prop := Accepting s a ∧ Tidy s a

/-- A poll shows the rotation once the new file has the name. -/
theorem racing_noticed (h : Racing m old new start s) (distinct : new ≠ old)
    (hpath : s.fs.path = some new) :
    Inevitable (step m) Undisturbed (Noticed m old new start) s := by
  refine inevitable_of_measure
    (I := fun t => Racing m old new start t ∧ t.fs.path = some new) (toCompare old) ?_ ⟨h, hpath⟩
  rintro t (ans | fs) ⟨hrace, hp⟩ hnot ⟨haccepts, htidy⟩
  · rcases hrace with hu | hn
    · rcases unnoticed_progress hu distinct hp haccepts htidy with hn | hlt
      · exact Or.inl hn
      · exact Or.inr ⟨⟨unnoticed_thread hu distinct htidy.same htidy.live,
          (congrArg Fs.path (thread_fs m ans t)).trans hp⟩, hlt⟩
    · exact absurd hn hnot
  · exact haccepts.elim

theorem Noticed.endRead (h : Noticed m old new start s) (ans : Answer) :
    EndRead new (thread m ans s) := by
  apply endRead_thread
  intro hpc
  obtain ⟨base, pos, -, hcatching⟩ := h.catching
  obtain ⟨done, -, hfollow⟩ :=
    (hcatching.rotated (Or.inl ⟨_, hpc⟩)).following (Or.inl ⟨_, hpc⟩)
  exact ⟨_, _, hfollow, h.path, h.lines⟩

theorem Noticed.payloads_caughtUp (h : Noticed m old new start s) (hup : CaughtUp s)
    (hend : EndRead new s) : s.pushed.map (payload m) = dueLines old new start s := by
  obtain ⟨base, pos, hdue, hcatching⟩ := h.catching
  have hsettled : Settled old new (s.fs.file old) (s.fs.file new) s := ⟨h.path, rfl, rfl, h.lines⟩
  obtain ⟨done, rfl, hsince⟩ := rotated_at_end hsettled (hcatching.rotated hup.behindChecks)
    (fun ws hws w hw => not_mem_of_mem_pieces (hws ▸ hw)) hup (hend hup)
  obtain ⟨more, hpushed, -⟩ := hcatching.pushed_since
  rw [hpushed, List.drop_left] at hsince
  rw [dueLines, if_pos h.path, ← hdue, hpushed, List.map_append, hsince, List.append_assoc]

/-- The poll that notices the rotation, or the next one, sends all that is due. -/
theorem noticed_sends (h : Noticed m old new start s) :
    Inevitable (step m) Undisturbed
      (fun t => CaughtUp t ∧ t.pushed.map (payload m) = dueLines old new start t) s := by
  refine .next ?_
  rintro (ans | fs) ⟨haccepts, htidy⟩
  · have hn : Noticed m old new start (thread m ans s) := noticed_thread h htidy.backup
    obtain ⟨base, pos, -, hcatching⟩ := hn.catching
    have hreach : Inevitable (step m) Undisturbed CaughtUp (thread m ans s) :=
      (catching_caughtUp hcatching hn.path hn.lines).restrict fun t a ha => ha.1
    have hkept := hreach.keep (I := fun t => Noticed m old new start t ∧ EndRead new t) ?_
      ⟨hn, h.endRead ans⟩
    · refine hkept.mono ?_
      rintro t ⟨hup, hnt, hend⟩
      exact ⟨hup, hnt.payloads_caughtUp hup hend⟩
    · rintro t (ans | fs) ⟨hnt, -⟩ ⟨haccepts, htidy⟩
      · exact ⟨noticed_thread hnt htidy.backup, hnt.endRead ans⟩
      · exact haccepts.elim
  · exact haccepts.elim

/-- Undisturbed the thread sends all that is due. -/
theorem racing_sends (h : Racing m old new start s) (distinct : new ≠ old)
    (hpath : s.fs.path = some new) :
    Inevitable (step m) Undisturbed
      (fun t => CaughtUp t ∧ t.pushed.map (payload m) = dueLines old new start t) s :=
  (racing_noticed h distinct hpath).trans fun _ hn => noticed_sends hn

/-- What undisturbed steps lead to comes, or an untidy step. -/
theorem threadRun_undisturbed {P : State → Prop} (h : Inevitable (step m) Undisturbed P s)
    (answers : Nat → Answer) (haccepts : ∀ n, Accepts (answers n)) :
    ∃ n, P (threadRun m s answers n) ∨ ¬ Tidy (threadRun m s answers n) (.thread (answers n)) := by
  obtain ⟨n, hmet | hnot⟩ := h.met fun k => .thread (answers k)
  · exact ⟨n, Or.inl hmet⟩
  · exact ⟨n, Or.inr fun htidy => hnot ⟨haccepts n, htidy⟩⟩

end

/-- For every interleaving of one rotation with the thread's steps, every content
of the old file, start position, server and library: while the steps are tidy, the
payloads are an initial part of the lines of the old file followed by those of the
new one, each in its place, and all of them whenever a poll reads the end of the
file that `path` leads to. Once the new file has the name, nobody else is at work and
the server accepts, a poll comes there, unless an untidy step comes first. -/
theorem dueLines_of_tidy (m : Config) {fs : Fs} {old new start size : Nat}
    (opened : Opened fs old start size) (distinct : new ≠ old) (checkpoint : Option Bytes)
    (connected : Bool) {acts : List Act}
    (rotates : Guarded (step m) (Rotates old new)
      (started fs checkpoint start ⟨old, size⟩ connected) acts)
    (tidy : Guarded (step m) Tidy (started fs checkpoint start ⟨old, size⟩ connected) acts) :
    Guarded (step m) (RaceLaw m old new start)
        (started fs checkpoint start ⟨old, size⟩ connected) acts ∧
      let s := run (step m) (started fs checkpoint start ⟨old, size⟩ connected) acts
      s.fs.path = some new → ∀ answers : Nat → Answer, (∀ n, Accepts (answers n)) →
        ∃ n, let t := threadRun m s answers n
          (CaughtUp t ∧ t.pushed.map (payload m) = dueLines old new start t) ∨
            ¬ Tidy t (.thread (answers n)) := by
  have hstart := racing_started m new opened checkpoint connected
  have hrules := guarded_and rotates tidy
  have hkeep : ∀ s a, Racing m old new start s → Rotates old new s a ∧ Tidy s a →
      Racing m old new start (step m s a) := fun s a h hg => racing_step h distinct hg.1 hg.2
  constructor
  · exact guarded_of_invariant hkeep
      (fun s a h hg => raceLaw_of_tidy h distinct hg.1 hg.2) hstart hrules
  · intro s hpath
    have hrun : Racing m old new start s := invariant_run hkeep hstart hrules
    exact threadRun_undisturbed (racing_sends hrun distinct hpath)

/-- The rotation of a file with the line `a`; the line `b` goes to the new one. -/
def rotateOnce : List Act :=
  [.external (oneFile 1 [97, newline]).rename,
    .external ((oneFile 1 [97, newline]).rename.create 2),
    .external (((oneFile 1 [97, newline]).rename.create 2).append 2 [98, newline])]

theorem rotates_rotateOnce (m : Config) {s : State} (h : s.fs = oneFile 1 [97, newline])
    (answers : List Answer) :
    Guarded (step m) (Rotates 1 2) s (rotateOnce ++ answers.map .thread) := by
  refine ⟨?_, .create rfl, .log _ rfl (by decide), ?_⟩
  · simp only [Rotates, h]
    exact .rename rfl
  · apply guarded_mono _ (threadSteps_guarded m _ answers)
    rintro s (ans | fs) hthread
    · trivial
    · exact hthread.elim

theorem dueLines_of_tidy_rotatedFirst :
    Guarded (step (shortModel .cxx11)) (RaceLaw (shortModel .cxx11) 1 2 0)
      (started (oneFile 1 [97, newline]) none 0 ⟨1, 2⟩ true)
      (rotateOnce ++ (List.replicate 12 (allWell 1)).map .thread) := by
  have opened : Opened (oneFile 1 [97, newline]) 1 0 2 := ⟨rfl, by decide, by decide⟩
  refine (dueLines_of_tidy (shortModel .cxx11) opened (by decide) none true
    (rotates_rotateOnce _ rfl _) ?_).1
  · refine ⟨⟨trivial, trivial, trivial⟩, ⟨trivial, trivial, trivial⟩, ⟨trivial, trivial, trivial⟩,
      ⟨nofun, nofun, nofun⟩, ⟨nofun, nofun, nofun⟩, ⟨?_, nofun, nofun⟩, ⟨nofun, nofun, nofun⟩,
      ⟨nofun, nofun, nofun⟩, ⟨nofun, nofun, ?_⟩, ⟨nofun, nofun, nofun⟩, ⟨nofun, nofun, nofun⟩,
      ⟨nofun, nofun, nofun⟩, ⟨nofun, nofun, nofun⟩, ⟨nofun, ?_, nofun⟩, ⟨nofun, ?_, nofun⟩, trivial⟩
    · rintro - f hf
      cases hf
      rfl
    · intro ino length hp
      cases hp
      exact ⟨by decide, Or.inl ⟨by decide, by decide⟩⟩
    · rintro - f hf
      cases hf
      exact Or.inr (by decide)
    · rintro - f hf
      cases hf
      exact Or.inl (by decide)

/-- The rotation falls between the open and the stat of a poll. -/
def rotateBehindOpen (n : Nat) : List Act :=
  List.replicate 2 (.thread (allWell 1)) ++
    (rotateOnce ++ (List.replicate n (allWell 1)).map .thread)

/-- `path` exists whenever it is opened or stat'ed. -/
def PathPresent (s : State) : Act → Prop
  | .external _ => True
  | .thread _ =>
    (∃ sleepM, s.pc = .stillGood (.opening sleepM)) ∨ s.pc = .stillGood .comparing →
      s.fs.path ≠ none

/-- The line `a` is sent twice and the line `b` never, although `path` is never missing. -/
theorem not_raceLaw_rotateBehindOpen :
    Guarded (step (shortModel .cxx11)) (Rotates 1 2)
        (started (oneFile 1 [97, newline]) none 0 ⟨1, 2⟩ true) (rotateBehindOpen 19) ∧
      Guarded (step (shortModel .cxx11)) PathPresent
        (started (oneFile 1 [97, newline]) none 0 ⟨1, 2⟩ true) (rotateBehindOpen 19) ∧
      ¬ Guarded (step (shortModel .cxx11)) (RaceLaw (shortModel .cxx11) 1 2 0)
        (started (oneFile 1 [97, newline]) none 0 ⟨1, 2⟩ true) (rotateBehindOpen 19) ∧
      CaughtUp (run (step (shortModel .cxx11))
        (started (oneFile 1 [97, newline]) none 0 ⟨1, 2⟩ true) (rotateBehindOpen 19)) ∧
      (run (step (shortModel .cxx11))
        (started (oneFile 1 [97, newline]) none 0 ⟨1, 2⟩ true) (rotateBehindOpen 19)).pushed.map
          (payload (shortModel .cxx11)) = [[97], [97]] := by
  refine ⟨⟨trivial, trivial, rotates_rotateOnce _ rfl _⟩, ?_, ?_, ⟨rfl, _, rfl, rfl⟩, by decide⟩
  · refine ⟨nofun, nofun, trivial, trivial, trivial, nofun, nofun, nofun, nofun, nofun, nofun,
      nofun, nofun, nofun, nofun, nofun, nofun, nofun, nofun, nofun, nofun, nofun, nofun, nofun,
      trivial⟩
  · rintro ⟨-, -, -, -, -, -, -, -, -, -, -, -, -, ⟨hinitial, -⟩, -⟩
    exact absurd hinitial (by decide)

end ModelRead
