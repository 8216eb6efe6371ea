import Logtail.RotationRace
import Logtail.History

/-!
# One rotation after the other

A rotation overwrites the backup file of the one before. When the thread reads the
new file before the next rotation begins, each backup file has been read by then,
and the messages carry the lines of all generations of the file in order.
-/

namespace ModelRead

open Framing FileStream ScribeSend Transitions Inevitability

/-- What happens from one rotation to the next, and the inode of the new file. -/
structure Turn where
  acts : List Act
  new : Nat

/-- The other process rotates `old` to `new` at most, and no step is untidy. -/
structure OneRotation (m : Config) (old new : Nat) (s : State) (acts : List Act) : Prop where
  distinct : new ≠ old
  rotates : Guarded (step m) (Rotates old new) s acts
  tidy : Guarded (step m) Tidy s acts

/-- The thread reads the file `new`. -/
def Arrived (new : Nat) (s : State) : Prop :=
  s.pc = .readLogFile .getline ∧ ∃ f, s.logreadfile = some f ∧ f.ino = new

/-- No rotation begins before the thread has arrived in the file of the last one. -/
def Turns (m : Config) : State → Nat → List Turn → Prop
  | _, _, [] => True
  | s, old, turn :: rest =>
    OneRotation m old turn.new s turn.acts ∧ Arrived turn.new (run (step m) s turn.acts) ∧
      Turns m (run (step m) s turn.acts) turn.new rest

def afterTurns (m : Config) (s : State) (turns : List Turn) : State :=
  run (step m) s (turns.flatMap Turn.acts)

/-- The file that is written to after the turns, and where its reading began. -/
def lastFile : Nat → Nat → List Turn → Nat × Nat
  | old, start, [] => (old, start)
  | _, _, turn :: rest => lastFile turn.new 0 rest

/-- The lines of all files that were rotated away, each as it was when the thread
had arrived in the next one. -/
def rotatedLines (m : Config) : State → Nat → Nat → List Turn → List Bytes
  | _, _, _, [] => []
  | s, old, start, turn :: rest =>
    pieces newline (((run (step m) s turn.acts).fs.file old).drop start) ++
      rotatedLines m (run (step m) s turn.acts) turn.new 0 rest

/-- The law of one rotation, behind the lines `due` of earlier ones. -/
def RaceLawBehind (m : Config) (due : List Bytes) (old new start : Nat) (s : State) (a : Act) :
    Prop :=
  let s' := step m s a
  s'.pushed.map (payload m) <+: due ++ dueLines old new start s' ∧
    ∀ ans f, a = .thread ans → ReadsEnd s s' → s'.logreadfile = some f →
      s'.fs.path = some f.ino → s'.pushed.map (payload m) = due ++ dueLines old new start s'

/-- A race that began with `consumed` read of the old file, `earlier` having been
recorded until then. -/
structure Resumed (m : Config) (due : List Bytes) (old new start : Nat) (earlier : List Event)
    (consumed : Bytes) (t : State) : Prop where
  racing : Racing m old new (start + consumed.length) t
  complete : Terminated newline consumed
  queued : (queuedIn earlier).map (payload m) = due ++ records newline consumed
  content : ∃ before more, t.fs.file old = before ++ (consumed ++ more) ∧ before.length = start

section

variable {m : Config} {base : List LogEntry} {due : List Bytes} {old new start : Nat}
  {earlier : List Event} {consumed : Bytes} {s t : State} {a : Act}

theorem tidy_of_behind (h : Tidy (t.behind earlier) a) : Tidy t a where
  same := by
    cases a with
    | external fs => trivial
    | thread ans => exact h.same
  live := by
    cases a with
    | external fs => trivial
    | thread ans => exact h.live
  backup := by
    cases a with
    | external fs => trivial
    | thread ans => exact h.backup

theorem OneRotation.of_behind {acts : List Act}
    (h : OneRotation m old new (t.behind earlier) acts) :
    OneRotation m old new t acts where
  distinct := h.distinct
  rotates := by
    refine guarded_mono (fun u a hu => ?_) ((guarded_behind t earlier).mp h.rotates)
    cases a <;> exact hu
  tidy := guarded_mono (fun _ _ => tidy_of_behind) ((guarded_behind t earlier).mp h.tidy)

theorem OneRotation.fresh {acts : List Act} (h : OneRotation m old new s acts) :
    OneRotation m old new s.fresh acts := by
  rw [← behind_fresh s] at h
  exact h.of_behind

theorem Following.behind {ino : Nat} (h : Following m base ino start t) (earlier : List Event) :
    Following m (queuedIn earlier ++ base) ino start (t.behind earlier) := by
  obtain ⟨consumed, rest, hr⟩ := h
  refine ⟨consumed, rest, hr.inside, hr.content, hr.complete, hr.position, ?_, hr.same, hr.grown,
    hr.place⟩
  rw [pushed_behind, hr.pushed, List.append_assoc]

/-- A thread that follows the old file goes on from where it is. -/
theorem resumed_fresh (new : Nat) (h : Following m base old start s)
    (hpath : s.fs.path = some old) :
    ∃ consumed, Resumed m (base.map (payload m)) old new start s.history consumed s.fresh := by
  obtain ⟨consumed, rest, hr⟩ := h
  have hlen := hr.start_length
  refine ⟨consumed, Or.inl ⟨.before hpath, Or.inl ⟨[], rest, ?_⟩⟩, hr.complete, ?_,
    (s.fs.file old).take start, rest, ?_, List.length_take_of_le hr.inside⟩
  · refine ⟨?_, ?_, terminated_nil _, ?_, rfl, hr.same, hr.grown, hr.place⟩
    · show start + consumed.length ≤ (s.fs.file old).length
      omega
    · show (s.fs.file old).drop (start + consumed.length) = rest
      rw [← List.drop_drop, hr.content, List.drop_left]
    · show s.position = ((start + consumed.length : Nat) : Int) + 0
      rw [hr.position, Nat.cast_add, Int.add_zero]
  · have hpushed := hr.pushed
    rw [State.pushed] at hpushed
    rw [hpushed, List.map_append, map_payload_liveEntry]
  · rw [← hr.content]
    exact (List.take_append_drop start (s.fs.file old)).symm

theorem resumed_step (h : Resumed m due old new start earlier consumed t) (distinct : new ≠ old)
    (rotates : Rotates old new t a) (tidy : Tidy t a) :
    Resumed m due old new start earlier consumed (step m t a) := by
  refine ⟨racing_step h.racing distinct rotates tidy, h.complete, h.queued, ?_⟩
  obtain ⟨before, more, hmore, hlen⟩ := h.content
  cases a with
  | thread ans => exact ⟨before, more, by rw [step, thread_fs, hmore], hlen⟩
  | external fs =>
    obtain ⟨bytes, hbytes⟩ := old_grows distinct rotates
    refine ⟨before, more ++ bytes, ?_, hlen⟩
    show fs.file old = _
    rw [hbytes, hmore]
    simp only [List.append_assoc]

/-- What had been read of the old file belongs to its lines. -/
theorem Resumed.pieces_eq (h : Resumed m due old new start earlier consumed t) :
    (queuedIn earlier).map (payload m) ++
        pieces newline ((t.fs.file old).drop (start + consumed.length)) =
      due ++ pieces newline ((t.fs.file old).drop start) := by
  obtain ⟨before, more, hmore, rfl⟩ := h.content
  rw [h.queued, ← List.drop_drop, hmore, List.drop_left, List.drop_left, pieces_append h.complete,
    List.append_assoc]

theorem Resumed.dueLines_eq (h : Resumed m due old new start earlier consumed t) :
    (queuedIn earlier).map (payload m) ++ dueLines old new (start + consumed.length) t =
      due ++ dueLines old new start t := by
  rw [dueLines, dueLines, ← List.append_assoc, h.pieces_eq, List.append_assoc]

theorem dueLines_behind (old new start : Nat) (t : State) (earlier : List Event) :
    dueLines old new start (t.behind earlier) = dueLines old new start t := rfl

theorem map_payload_behind (m : Config) (t : State) (earlier : List Event) :
    (t.behind earlier).pushed.map (payload m) =
      (queuedIn earlier).map (payload m) ++ t.pushed.map (payload m) := by
  rw [pushed_behind, List.map_append]

theorem raceLawBehind_of_raceLaw (h : Resumed m due old new start earlier consumed (step m t a))
    (law : RaceLaw m old new (start + consumed.length) t a) :
    RaceLawBehind m due old new start (t.behind earlier) a := by
  obtain ⟨hinitial, hend⟩ := law
  have hstep := step_behind t earlier m a
  refine ⟨?_, ?_⟩
  · rw [hstep, dueLines_behind, map_payload_behind, ← h.dueLines_eq]
    exact (List.prefix_append_right_inj _).mpr hinitial
  · rw [hstep, dueLines_behind, map_payload_behind, ← h.dueLines_eq]
    intro ans f ha hreads hf hpath
    rw [hend ans f ha hreads hf hpath]

theorem Resumed.payloads_isPrefix (h : Resumed m due old new start earlier consumed t) :
    (t.behind earlier).pushed.map (payload m) <+: due ++ dueLines old new start t := by
  rw [map_payload_behind, ← h.dueLines_eq]
  exact (List.prefix_append_right_inj _).mpr h.racing.payloads_isPrefix

/-- A thread that has arrived in the new file has read all of the old one. -/
theorem arrived_following (h : Resumed m due old new start earlier consumed t)
    (distinct : new ≠ old)
    (arrived : Arrived new t) :
    t.fs.path = some new ∧ ∃ base, Following m base new 0 (t.behind earlier) ∧
      base.map (payload m) = due ++ pieces newline ((t.fs.file old).drop start) := by
  obtain ⟨hpc, f, hf, hino⟩ := arrived
  rcases h.racing with ⟨-, ⟨_, _, hr⟩ | ⟨hcomparing, -⟩⟩ | hn
  · rw [hr.at_getline hpc] at hf
    cases hf
    exact absurd hino.symm distinct
  · rw [hpc] at hcomparing
    cases hcomparing
  · obtain ⟨base, pos, hdue, hcatching⟩ := hn.catching
    obtain ⟨done, rfl, hfollow⟩ :=
      (hcatching.rotated (Or.inl ⟨_, hpc⟩)).following (Or.inl ⟨_, hpc⟩)
    refine ⟨hn.path, _, hfollow.behind earlier, ?_⟩
    rw [List.map_append, List.map_append,
      map_payload_backupEntry m fun w hw => not_mem_of_mem_pieces hw, hdue, h.pieces_eq]

theorem OneRotation.rules {acts : List Act} (h : OneRotation m old new t acts) :
    Guarded (step m) (fun u a => Rotates old new u a ∧ Tidy u a) t acts :=
  guarded_and h.rotates h.tidy

theorem resumed_run {acts : List Act} (h : Resumed m due old new start earlier consumed t)
    (rotation : OneRotation m old new t acts) :
    Resumed m due old new start earlier consumed (run (step m) t acts) :=
  invariant_run (fun _ _ hu hg => resumed_step hu rotation.distinct hg.1 hg.2) h rotation.rules

theorem resumed_law {acts : List Act} (h : Resumed m due old new start earlier consumed t)
    (rotation : OneRotation m old new t acts) :
    Guarded (step m) (RaceLawBehind m due old new start) (t.behind earlier) acts := by
  rw [guarded_behind]
  refine guarded_of_invariant (I := Resumed m due old new start earlier consumed)
    (fun _ _ hu hg => resumed_step hu rotation.distinct hg.1 hg.2) ?_ h rotation.rules
  rintro u a hu ⟨hrotates, htidy⟩
  exact raceLawBehind_of_raceLaw (resumed_step hu rotation.distinct hrotates htidy)
    (raceLaw_of_tidy hu.racing rotation.distinct hrotates htidy)

theorem resumed_undisturbed (h : Resumed m due old new start earlier consumed t)
    (distinct : new ≠ old) (ha : Undisturbed t a) :
    Resumed m due old new start earlier consumed (step m t a) := by
  cases a with
  | thread ans => exact resumed_step h distinct trivial ha.2
  | external fs => exact ha.1.elim

/-- Undisturbed, the thread sends all that is due once the new file has the name. -/
theorem resumed_sends (h : Resumed m due old new start earlier consumed t)
    (distinct : new ≠ old) (hpath : t.fs.path = some new) :
    Inevitable (step m) Undisturbed
      (fun u => CaughtUp u ∧ u.pushed.map (payload m) = due ++ dueLines old new start u)
      (t.behind earlier) := by
  apply inevitable_behind
  have hreach := ((racing_sends h.racing distinct hpath).keep
    (I := Resumed m due old new start earlier consumed)
    (fun u a hu ha => resumed_undisturbed hu distinct ha) h).mono
    (Q := fun u => CaughtUp (u.behind earlier) ∧
      (u.behind earlier).pushed.map (payload m) =
        due ++ dueLines old new start (u.behind earlier)) ?_
  · exact hreach.restrict fun u a ha => ⟨by cases a <;> exact ha.1, tidy_of_behind ha.2⟩
  · rintro u ⟨⟨hup, hall⟩, hu⟩
    refine ⟨hup, ?_⟩
    rw [map_payload_behind, hall, hu.dueLines_eq, dueLines_behind]

/-- Each turn leaves the thread in the new file, with the lines of the old one sent. -/
theorem turns_following {turns : List Turn} (h : Following m base old start s)
    (hpath : s.fs.path = some old) (hturns : Turns m s old turns) :
    (afterTurns m s turns).fs.path = some (lastFile old start turns).1 ∧
      ∃ base', Following m base' (lastFile old start turns).1 (lastFile old start turns).2
          (afterTurns m s turns) ∧
        base'.map (payload m) = base.map (payload m) ++ rotatedLines m s old start turns := by
  induction turns generalizing s old start base with
  | nil => exact ⟨hpath, base, h, by simp [rotatedLines]⟩
  | cons turn rest ih =>
    obtain ⟨rotation, arrived, hrest⟩ := hturns
    obtain ⟨consumed, hresumed⟩ := resumed_fresh turn.new h hpath
    have hrun := resumed_run hresumed rotation.fresh
    have hback := run_fresh m s turn.acts
    rw [hback] at arrived hrest
    obtain ⟨hpath', base', hfollow, hbase'⟩ := arrived_following hrun rotation.distinct arrived
    obtain ⟨hlast, base'', hfollow', hbase''⟩ := ih hfollow hpath' hrest
    rw [afterTurns, List.flatMap_cons, run_append, hback]
    refine ⟨hlast, base'', hfollow', ?_⟩
    rw [hbase'', hbase', rotatedLines, hback, List.append_assoc]
    rfl

end

/-- After the turns the lines of the files that were rotated away are behind the thread. -/
theorem resumed_afterTurns (m : Config) {fs : Fs} {first start size : Nat} (new : Nat)
    (opened : Opened fs first start size) (checkpoint : Option Bytes) (connected : Bool)
    {turns : List Turn}
    (hturns : Turns m (started fs checkpoint start ⟨first, size⟩ connected) first turns) :
    let s₀ := started fs checkpoint start ⟨first, size⟩ connected
    let last := lastFile first start turns
    ∃ consumed, Resumed m (rotatedLines m s₀ first start turns) last.1 new last.2
      (afterTurns m s₀ turns).history consumed (afterTurns m s₀ turns).fresh := by
  intro s₀ last
  have hstart := (tailed_started m opened checkpoint connected).2
  obtain ⟨hpath, base, hfollow, hbase⟩ := turns_following hstart opened.path hturns
  rw [List.map_nil, List.nil_append] at hbase
  rw [← hbase]
  exact resumed_fresh new hfollow hpath

/-- For any number of rotations, every interleaving, every content and every start
position: while the steps are tidy and no rotation begins before the thread has
arrived in the file of the last one, the payloads are an initial part of the lines
of all generations in order, and all of them whenever a poll reads the end of the
file that `path` leads to. Once the last file has its name, nobody else is at work and
the server accepts, a poll comes there, unless an untidy step comes first. -/
theorem generations_of_tidy (m : Config) {fs : Fs} {first start size new : Nat}
    (opened : Opened fs first start size) (checkpoint : Option Bytes) (connected : Bool)
    {turns : List Turn} {acts : List Act}
    (hturns : Turns m (started fs checkpoint start ⟨first, size⟩ connected) first turns)
    (rotation : OneRotation m (lastFile first start turns).1 new
      (afterTurns m (started fs checkpoint start ⟨first, size⟩ connected) turns) acts) :
    let s := afterTurns m (started fs checkpoint start ⟨first, size⟩ connected) turns
    let t := run (step m) s acts
    let due := rotatedLines m (started fs checkpoint start ⟨first, size⟩ connected) first start
      turns
    let last := lastFile first start turns
    Guarded (step m) (RaceLawBehind m due last.1 new last.2) s acts ∧
      (t.fs.path = some new → ∀ answers : Nat → Answer, (∀ n, Accepts (answers n)) →
        ∃ n, let u := threadRun m t answers n
          (CaughtUp u ∧ u.pushed.map (payload m) = due ++ dueLines last.1 new last.2 u) ∨
            ¬ Tidy u (.thread (answers n))) := by
  intro s t due last
  obtain ⟨consumed, hresumed⟩ := resumed_afterTurns m new opened checkpoint connected hturns
  constructor
  · have hlaw := resumed_law hresumed rotation.fresh
    rwa [behind_fresh] at hlaw
  · intro hnew
    have ht : t = (run (step m) s.fresh acts).behind s.history := run_fresh m s acts
    rw [ht] at hnew ⊢
    exact threadRun_undisturbed
      (resumed_sends (resumed_run hresumed rotation.fresh) rotation.distinct hnew)

/-- `CleanText`, computed. -/
def cleanText (unread memory : Bytes) : Bool :=
  !unread.contains nul &&
    if Terminated newline unread then !(behind unread memory).contains newline
    else (behind unread memory).head? == some newline &&
      !(behind unread memory).tail.contains newline

theorem cleanText_iff (unread memory : Bytes) :
    cleanText unread memory = true ↔ CleanText unread memory := by
  have hbehind : (∃ rest, behind unread memory = newline :: rest ∧ newline ∉ rest) ↔
      (behind unread memory).head? = some newline ∧ newline ∉ (behind unread memory).tail := by
    cases behind unread memory with
    | nil => simp
    | cons b rest => simp
  rw [cleanText, CleanText, hbehind]
  by_cases hterm : Terminated newline unread
  · simp [hterm]
  · simp [hterm]

/-- `Tidy`, computed: where a step of the thread can go wrong. -/
def tidy (s : State) : Act → Bool
  | .external _ => true
  | .thread ans =>
    match s.pc with
    | .stillGood .comparing => s.logreadfile.all fun f => s.fs.path == some f.ino
    | .readLogFile .getline =>
      s.logreadfile.all fun f =>
        ((s.fs.file f.ino).drop f.off).isEmpty || ((s.fs.file f.ino).drop f.off).contains newline
    | .readBackupfile (.reading ino _) =>
      cleanText ((s.fs.file ino).drop s.position.toNat) ans.memory
    | _ => true

theorem tidy_iff (s : State) (a : Act) : tidy s a = true ↔ Tidy s a := by
  have hparts : Tidy s a ↔ SameFile s a ∧ CleanRead s a ∧ CleanBackup s a :=
    ⟨fun h => ⟨h.same, h.live, h.backup⟩, fun ⟨hsame, hlive, hbackup⟩ => ⟨hsame, hlive, hbackup⟩⟩
  rw [hparts]
  cases a with
  | external fs => simp [tidy, SameFile, CleanRead, CleanBackup]
  | thread ans =>
    simp only [SameFile, CleanRead, CleanBackup]
    cases hpc : s.pc with
    | logtailFile place => simp [tidy, hpc]
    | stillGood place => cases place <;> simp [tidy, hpc, Option.all_eq_true]
    | readBackupfile place => cases place <;> simp [tidy, hpc, cleanText_iff]
    | readLogFile place => cases place <;> simp [tidy, hpc, Option.all_eq_true]
    | writeCheckpoint place => simp [tidy, hpc]

instance (s : State) (a : Act) : Decidable (Tidy s a) := decidable_of_iff _ (tidy_iff s a)

/-- The other process rotates the file to `new` and logs `lines` there. -/
def rotationTo (new : Nat) (lines : Bytes) (fs : Fs) : List Act :=
  [.external fs.rename, .external (fs.rename.create new),
    .external ((fs.rename.create new).append new lines)]

theorem rotates_rotationTo (m : Config) {s : State} {old : Nat} (new : Nat) {lines : Bytes}
    (hpath : s.fs.path = some old) (hlines : Terminated newline lines) (answers : List Answer) :
    Guarded (step m) (Rotates old new) s (rotationTo new lines s.fs ++ answers.map .thread) := by
  refine ⟨.rename hpath, .create rfl, .log _ rfl hlines, ?_⟩
  apply guarded_mono _ (threadSteps_guarded m _ answers)
  rintro s (ans | fs) hthread
  · trivial
  · exact hthread.elim

/-- The file with the line `a` is rotated, then the one with the line `b`. -/
def turnedOnce : State := started (oneFile 1 [97, newline]) none 0 ⟨1, 2⟩ true

def firstTurn : Turn :=
  ⟨rotationTo 2 [98, newline] turnedOnce.fs ++ (List.replicate 10 (allWell 1)).map .thread, 2⟩

def secondTurn : List Act :=
  rotationTo 3 [99, newline] (run (step (shortModel .cxx11)) turnedOnce firstTurn.acts).fs ++
    (List.replicate 16 (allWell 1)).map .thread

theorem turns_firstTurn : Turns (shortModel .cxx11) turnedOnce 1 [firstTurn] := by
  refine ⟨⟨by decide, ?_, by decide⟩, ⟨rfl, _, rfl, rfl⟩, trivial⟩
  exact rotates_rotationTo (shortModel .cxx11) 2 rfl (by decide) (List.replicate 10 (allWell 1))

theorem rotation_secondTurn : OneRotation (shortModel .cxx11) 2 3
    (afterTurns (shortModel .cxx11) turnedOnce [firstTurn]) secondTurn := by
  refine ⟨by decide, ?_, by decide⟩
  exact rotates_rotationTo (shortModel .cxx11) 3 rfl (by decide) (List.replicate 16 (allWell 1))

theorem generations_of_tidy_twice :
    Guarded (step (shortModel .cxx11)) (RaceLawBehind (shortModel .cxx11) [[97]] 2 3 0)
        (afterTurns (shortModel .cxx11) turnedOnce [firstTurn]) secondTurn ∧
      (run (step (shortModel .cxx11)) (afterTurns (shortModel .cxx11) turnedOnce [firstTurn])
        secondTurn).pushed.map (payload (shortModel .cxx11)) = [[97], [98], [99]] := by
  have opened : Opened (oneFile 1 [97, newline]) 1 0 2 := ⟨rfl, by decide, by decide⟩
  have hdue : rotatedLines (shortModel .cxx11) turnedOnce 1 0 [firstTurn] = [[97]] := by decide
  have hlaw := (generations_of_tidy (shortModel .cxx11) opened none true turns_firstTurn
    rotation_secondTurn).1
  exact ⟨hdue ▸ hlaw, by decide⟩

end ModelRead
