import Logtail.Frames

/-!
# Polls of a file that only grows

The invariant of the tail thread while it stays with one inode: the bytes behind
the start position are a consumed part, made of complete lines that have all
been queued, and a rest that has not been touched. Only a `getline` step can
leave the invariant, and only when it meets an unterminated line.
-/

namespace ModelRead

open Framing FileStream ScribeSend Transitions

/-- A message without `log_prefix` and without a final newline. -/
def payload (m : Config) (le : LogEntry) : Bytes :=
  let body := le.message.drop m.logPrefix.length
  if body.getLast? = some newline then body.dropLast else body

@[simp] theorem payload_liveEntry (m : Config) (line : Bytes) :
    payload m (liveEntry m line) = line := by
  simp [payload, liveEntry, List.append_assoc]

theorem payload_backupEntry (m : Config) {line : Bytes} (h : newline ∉ line) :
    payload m (backupEntry m line) = line := by
  have hlast : line.getLast? ≠ some newline := fun hl => h (List.mem_of_getLast? hl)
  simp [payload, backupEntry, hlast]

theorem map_payload_liveEntry (m : Config) (lines : List Bytes) :
    (lines.map (liveEntry m)).map (payload m) = lines := by
  simp [Function.comp_def]

/-- The lines of the followed file behind `start`, as the thread queues them. -/
def linesOf (m : Config) (ino start : Nat) (s : State) : List LogEntry :=
  (records newline ((s.fs.file ino).drop start)).map (liveEntry m)

/-- The offset `p` lies in the file. -/
def InFile (ino : Nat) (s : State) (p : Int) : Prop := 0 ≤ p ∧ p ≤ (s.fs.file ino).length

/-- What holds of the stream at the places of a poll without rotation. -/
def LivePlace (ino : Nat) (s : State) : Prop :=
  match s.pc with
  | .stillGood .comparing => s.logreadfile = some (.opened ino)
  | .stillGood .telling => False
  | .readBackupfile _ => False
  | .readLogFile .seeking => s.logreadfile = some (.opened ino)
  | .readLogFile .getline =>
    ∃ off : Nat, s.logreadfile = some ⟨ino, off, false, false⟩ ∧ s.position = off
  | _ => True

/-- Behind `start` the file is `consumed ++ rest`. `base` is what had been queued
before `start` was reached. -/
structure Reading (m : Config) (base : List LogEntry) (ino start : Nat)
    (consumed rest : Bytes) (s : State) : Prop where
  inside : start ≤ (s.fs.file ino).length
  content : (s.fs.file ino).drop start = consumed ++ rest
  complete : Terminated newline consumed
  position : s.position = start + consumed.length
  pushed : s.pushed = base ++ (records newline consumed).map (liveEntry m)
  same : s.oStat.stIno = ino
  grown : s.oStat.stSize ≤ (s.fs.file ino).length
  place : LivePlace ino s

/-- Another process only adds bytes of the kind `ok` to the file at `path`. -/
def Appends (ok : Bytes → Prop) (ino : Nat) (s : State) : Act → Prop
  | .thread _ => True
  | .external fs =>
    fs.path = some ino ∧ ∃ bytes, ok bytes ∧ fs.file ino = s.fs.file ino ++ bytes

/-- The step reads the end of the file. -/
def ReadsEnd (s s' : State) : Prop :=
  s.pc = .readLogFile .getline ∧ ∃ f, s'.logreadfile = some f ∧ f.eofbit = true

/-- A `getline` step does not meet an unterminated line: the unread bytes are
empty or contain a newline. -/
def CleanRead (s : State) : Act → Prop
  | .external _ => True
  | .thread _ =>
    s.pc = .readLogFile .getline → ∀ f, s.logreadfile = some f →
      (s.fs.file f.ino).drop f.off = [] ∨ newline ∈ (s.fs.file f.ino).drop f.off

section reading

variable {m : Config} {base : List LogEntry} {ino start : Nat} {consumed rest : Bytes}
  {s s' : State}

theorem Reading.start_length (h : Reading m base ino start consumed rest s) :
    start + consumed.length + rest.length = (s.fs.file ino).length := by
  have hlen := congrArg List.length h.content
  have hin := h.inside
  simp only [List.length_drop, List.length_append] at hlen
  omega

theorem Reading.toNat_position (h : Reading m base ino start consumed rest s) :
    s.position.toNat = start + consumed.length := by
  have := h.position
  omega

theorem Reading.inFile (h : Reading m base ino start consumed rest s) :
    InFile ino s s.position := by
  have hlen := h.start_length
  have hpos := h.position
  constructor <;> omega

theorem Reading.drop_position (h : Reading m base ino start consumed rest s) :
    (s.fs.file ino).drop (start + consumed.length) = rest := by
  rw [← List.drop_drop, h.content, List.drop_left]

theorem Reading.records_append (h : Reading m base ino start consumed rest s) :
    records newline ((s.fs.file ino).drop start) =
      records newline consumed ++ records newline rest := by
  rw [h.content, Framing.records_append h.complete]

/-- With nothing left to read all lines have been queued. -/
theorem Reading.linesOf_eq (h : Reading m [] ino start consumed [] s) :
    s.pushed = linesOf m ino start s := by
  rw [h.pushed, List.nil_append, linesOf, h.content, List.append_nil]

/-- A step that leaves file, position, queue and old stat result alone. -/
theorem Reading.kept (h : Reading m base ino start consumed rest s) (hfs : s'.fs = s.fs)
    (hposition : s'.position = s.position) (hpushed : s'.pushed = s.pushed)
    (hstat : s'.oStat = s.oStat) (hplace : LivePlace ino s') :
    Reading m base ino start consumed rest s' where
  inside := by rw [hfs]; exact h.inside
  content := by rw [hfs]; exact h.content
  complete := h.complete
  position := hposition.trans h.position
  pushed := hpushed.trans h.pushed
  same := by rw [hstat]; exact h.same
  grown := by rw [hstat, hfs]; exact h.grown
  place := hplace

/-- Bytes that another process appends belong to the rest. -/
theorem Reading.external (h : Reading m base ino start consumed rest s) {fs : Fs} {bytes : Bytes}
    (hfile : fs.file ino = s.fs.file ino ++ bytes) :
    Reading m base ino start consumed (rest ++ bytes) { s with fs := fs } where
  inside := by
    have := h.inside
    simp only [hfile, List.length_append]
    omega
  content := by
    simp only [hfile]
    rw [List.drop_append_of_le_length h.inside, h.content, List.append_assoc]
  complete := h.complete
  position := h.position
  pushed := h.pushed
  same := h.same
  grown := by
    have := h.grown
    simp only [hfile, List.length_append]
    omega
  place := h.place

theorem rotation_eq_none_iff (nStat oStat : Stat) :
    rotation nStat oStat = none ↔ nStat.stIno = oStat.stIno ∧ oStat.stSize ≤ nStat.stSize := by
  unfold rotation
  split <;> rename_i hino
  · simp [hino]
  · split <;> rename_i hsize
    · simp only [reduceCtorEq, false_iff, not_and]
      omega
    · simp only [true_iff]
      omega

/-- The stat result of a file that has grown since the last poll. -/
theorem Reading.rotation_none (h : Reading m base ino start consumed rest s) :
    rotation ⟨ino, (s.fs.file ino).length⟩ s.oStat = none :=
  (rotation_eq_none_iff _ _).mpr ⟨h.same.symm, h.grown⟩

/-- No rotation branch is entered. -/
theorem Reading.not_readBackupfile (h : Reading m base ino start consumed rest s)
    (place : BackupPc) : s.pc ≠ .readBackupfile place := by
  intro hp
  have hplace := h.place
  rwa [LivePlace, hp] at hplace

theorem Reading.not_telling (h : Reading m base ino start consumed rest s) :
    s.pc ≠ .stillGood .telling := by
  intro hp
  have hplace := h.place
  rwa [LivePlace, hp] at hplace

theorem Reading.at_comparing (h : Reading m base ino start consumed rest s)
    (hpc : s.pc = .stillGood .comparing) : s.logreadfile = some (.opened ino) := by
  have hplace := h.place
  rwa [LivePlace, hpc] at hplace

theorem reading_logtailFile (h : Reading m base ino start consumed rest s) (ans : Answer)
    (place : LogtailPc) :
    Reading m base ino start consumed rest (logtailFile ans s place) := by
  cases place with
  | polling => exact h.kept rfl rfl rfl rfl trivial
  | checking =>
    simp only [logtailFile]
    split <;> exact h.kept rfl rfl rfl rfl trivial
  | sending =>
    simp only [logtailFile]
    split
    · exact h.kept rfl rfl (by simp) rfl trivial
    · exact h.kept rfl rfl (by simp) rfl trivial
  | reopening => exact h.kept rfl rfl (by simp [logtailFile]) rfl trivial
  | waiting tM allNum =>
    simp only [logtailFile]
    split
    · exact h.kept rfl rfl rfl rfl trivial
    · exact h.kept rfl rfl (by simp) rfl trivial

/-- The name must lead to the inode only where the poll uses the name. -/
theorem reading_stillGood (h : Reading m base ino start consumed rest s) {place : StillGoodPc}
    (hpc : s.pc = .stillGood place)
    (hopen : ∀ sleepM, place = .opening sleepM → ∀ i, s.fs.path = some i → i = ino)
    (hstat : place = .comparing → s.fs.path = some ino) :
    Reading m base ino start consumed rest (stillGood m s place) := by
  cases place with
  | opening sleepM =>
    simp only [stillGood]
    cases hp : s.fs.path with
    | none => exact h.kept rfl rfl rfl rfl trivial
    | some i =>
      obtain rfl := hopen sleepM rfl i hp
      exact h.kept rfl rfl rfl rfl rfl
  | comparing =>
    have hfs : s.fs.stat = some ⟨ino, (s.fs.file ino).length⟩ := by
      simp [Fs.stat, hstat rfl]
    simp only [stillGood, hfs, Option.getD_some, h.rotation_none]
    exact ⟨h.inside, h.content, h.complete, h.position, h.pushed, rfl, Nat.le_refl _,
      h.at_comparing hpc⟩
  | telling => exact absurd hpc h.not_telling

theorem reading_seeking (h : Reading m base ino start consumed rest s)
    (hpc : s.pc = .readLogFile .seeking) :
    Reading m base ino start consumed rest (readLogFile m s .seeking) := by
  have hplace := h.place
  rw [LivePlace, hpc] at hplace
  have hpos : s.position = ((start + consumed.length : Nat) : Int) := by
    rw [h.position, Nat.cast_add]
  refine h.kept rfl rfl rfl rfl ⟨start + consumed.length, ?_, hpos⟩
  simp only [readLogFile, State.goto_logreadfile, hplace, Option.map_some, hpos,
    Ifstream.seekg_opened]

theorem reading_writeCheckpoint (h : Reading m base ino start consumed rest s) (ans : Answer)
    (place : CheckpointPc) :
    Reading m base ino start consumed rest (writeCheckpoint m ans s place) := by
  cases place with
  | timing =>
    simp only [writeCheckpoint]
    split <;> exact h.kept rfl rfl rfl rfl trivial
  | writing tTime writeInfo =>
    exact h.kept rfl rfl (State.pushed_rewritten _ tTime) rfl trivial

/-- Every step of the thread but `getline` keeps what is consumed. -/
theorem reading_quiet (h : Reading m base ino start consumed rest s)
    (hpc : s.pc ≠ .readLogFile .getline)
    (hopen : ∀ sleepM, s.pc = .stillGood (.opening sleepM) → ∀ i, s.fs.path = some i → i = ino)
    (hstat : s.pc = .stillGood .comparing → s.fs.path = some ino) (ans : Answer) :
    Reading m base ino start consumed rest (thread m ans s) := by
  cases hp : s.pc with
  | logtailFile place =>
    rw [thread_logtailFile m ans hp]
    exact reading_logtailFile h ans place
  | stillGood place =>
    rw [thread_stillGood m ans hp]
    apply reading_stillGood h hp
    · rintro sleepM rfl
      exact hopen sleepM hp
    · rintro rfl
      exact hstat hp
  | readBackupfile place => exact absurd hp (h.not_readBackupfile place)
  | readLogFile place =>
    rw [thread_readLogFile m ans hp]
    cases place with
    | seeking => exact reading_seeking h hp
    | getline => exact absurd hp hpc
    | closing => exact h.kept rfl rfl rfl rfl trivial
  | writeCheckpoint place =>
    rw [thread_writeCheckpoint m ans hp]
    exact reading_writeCheckpoint h ans place

/-- A line is queued and the position read back; a full batch breaks the loop. -/
theorem readLogFile_getline_some {f f' : Ifstream} {temp : Bytes}
    (hpc : s.pc = .readLogFile .getline) (hf : s.logreadfile = some f)
    (hget : f.getline (s.fs.file f.ino) = (some temp, f')) :
    ∃ pc, (pc = .readLogFile .getline ∨
        (pc = .writeCheckpoint .timing ∧
          sizeT m.maxSendMsg ≤ s.scribeInter.messages.length + 1)) ∧
      readLogFile m s .getline =
        ({ s with
            logreadfile := some (f'.tellg m.lib).2
            position := (f'.tellg m.lib).1 }.queue (liveEntry m temp)).goto pc := by
  simp only [readLogFile, hf, hget]
  split
  · rename_i hfull
    exact ⟨_, Or.inr ⟨rfl, by simpa using hfull⟩, rfl⟩
  · refine ⟨.readLogFile .getline, Or.inl rfl, ?_⟩
    rw [← hpc]
    rfl

theorem readLogFile_getline_none {f f' : Ifstream} (hf : s.logreadfile = some f)
    (hget : f.getline (s.fs.file f.ino) = (none, f')) :
    readLogFile m s .getline =
      { s with logreadfile := some f' }.goto (.writeCheckpoint .timing) := by
  simp only [readLogFile, hf, hget]

/-- At `getline` the stream stands at the first unread byte. -/
theorem Reading.at_getline (h : Reading m base ino start consumed rest s)
    (hpc : s.pc = .readLogFile .getline) :
    s.logreadfile = some ⟨ino, start + consumed.length, false, false⟩ := by
  have hplace := h.place
  rw [LivePlace, hpc] at hplace
  obtain ⟨off, hf, hoff⟩ := hplace
  have hpos := h.position
  have heq : off = start + consumed.length := by omega
  rw [hf, heq]

theorem reading_getline_record {line : Bytes}
    (h : Reading m base ino start consumed (line ++ newline :: rest) s)
    (hpc : s.pc = .readLogFile .getline) (hline : newline ∉ line) (ans : Answer) :
    Reading m base ino start (consumed ++ (line ++ [newline])) rest (thread m ans s) ∧
      (thread m ans s).pushed = s.pushed ++ [liveEntry m line] ∧
      (thread m ans s).logreadfile =
        some ⟨ino, start + consumed.length + line.length + 1, false, false⟩ ∧
      (thread m ans s).scribeInter.messages = s.scribeInter.messages ++ [liveEntry m line] ∧
      ((thread m ans s).pc = .readLogFile .getline ∨
        ((thread m ans s).pc = .writeCheckpoint .timing ∧
          sizeT m.maxSendMsg ≤ s.scribeInter.messages.length + 1)) := by
  have hf := h.at_getline hpc
  have hget := Ifstream.getline_record (f := ⟨ino, start + consumed.length, false, false⟩) rfl
    h.drop_position hline
  obtain ⟨pc, hcase, hstep⟩ := readLogFile_getline_some (m := m) hpc hf hget
  rw [Ifstream.tellg_good m.lib (f := ⟨ino, _, false, false⟩) rfl] at hstep
  rw [thread_readLogFile m ans hpc, hstep]
  have hpushed : ∀ t : State, t.history = s.history →
      ((t.queue (liveEntry m line)).goto pc).pushed = s.pushed ++ [liveEntry m line] := by
    intro t ht
    simp [State.pushed, ht, queuedIn]
  refine ⟨⟨h.inside, ?_, ?_, ?_, ?_, h.same, h.grown, ?_⟩, hpushed _ rfl, rfl, rfl, hcase⟩
  · simpa using h.content
  · exact (terminated_append h.complete).mpr ((terminated_record hline []).mpr (terminated_nil _))
  · simp only [State.goto_position, State.queue_position, List.length_append, List.length_cons,
      List.length_nil]
    omega
  · refine (hpushed _ rfl).trans ?_
    rw [h.pushed, Framing.records_append h.complete, records_record hline]
    simp
  · rcases hcase with rfl | ⟨rfl, -⟩
    · exact ⟨_, rfl, rfl⟩
    · trivial

theorem reading_getline_end (h : Reading m base ino start consumed [] s)
    (hpc : s.pc = .readLogFile .getline) (ans : Answer) :
    Reading m base ino start consumed [] (thread m ans s) ∧
      (thread m ans s).logreadfile = some ⟨ino, start + consumed.length, true, true⟩ ∧
      (thread m ans s).pc = .writeCheckpoint .timing := by
  have hf := h.at_getline hpc
  have hget := Ifstream.getline_end (f := ⟨ino, start + consumed.length, false, false⟩) rfl
    h.drop_position
  rw [thread_readLogFile m ans hpc, readLogFile_getline_none hf hget]
  exact ⟨h.kept rfl rfl rfl rfl trivial, rfl, rfl⟩

/-- The unterminated rest of the file is queued like a line. What `tellg` says
then depends on the library. -/
theorem reading_getline_unterminated (h : Reading m base ino start consumed rest s)
    (hpc : s.pc = .readLogFile .getline) (hne : rest ≠ []) (hline : newline ∉ rest)
    (ans : Answer) :
    (thread m ans s).fs = s.fs ∧
      (thread m ans s).pushed = s.pushed ++ [liveEntry m rest] ∧
      (m.lib = .cxx11 → (thread m ans s).position = -1) := by
  have hf := h.at_getline hpc
  have hget := Ifstream.getline_unterminated
    (f := ⟨ino, start + consumed.length, false, false⟩) rfl
    (by rw [h.drop_position]; exact hne) (by rw [h.drop_position]; exact hline)
  rw [h.drop_position] at hget
  obtain ⟨pc, -, hstep⟩ := readLogFile_getline_some (m := m) hpc hf hget
  rw [thread_readLogFile m ans hpc, hstep]
  refine ⟨rfl, ?_, ?_⟩
  · simp [State.pushed, queuedIn]
  · intro hlib
    simp [Ifstream.tellg, hlib]

/-- What a clean `getline` step can do. -/
theorem reading_getline_cases (h : Reading m base ino start consumed rest s)
    (hpc : s.pc = .readLogFile .getline) {ans : Answer} (clean : CleanRead s (.thread ans)) :
    rest = [] ∨ ∃ line rest', rest = line ++ newline :: rest' ∧ newline ∉ line := by
  have hclean := clean hpc _ (h.at_getline hpc)
  rw [h.drop_position] at hclean
  rcases hclean with hnil | hmem
  · exact Or.inl hnil
  · rcases cut_cases newline rest with hno | hcut
    · exact absurd hmem hno
    · exact Or.inr hcut

/-- A clean step that reads the end has found nothing behind the consumed part. -/
theorem reading_readsEnd (h : Reading m base ino start consumed rest s) {ans : Answer}
    (clean : CleanRead s (.thread ans)) (hend : ReadsEnd s (thread m ans s)) :
    Reading m base ino start consumed [] (thread m ans s) ∧
      (thread m ans s).logreadfile = some ⟨ino, start + consumed.length, true, true⟩ := by
  obtain ⟨hpc, f, hf, heof⟩ := hend
  rcases reading_getline_cases h hpc clean with rfl | ⟨line, rest', rfl, hline⟩
  · obtain ⟨hr, hstream, -⟩ := reading_getline_end h hpc ans
    exact ⟨hr, hstream⟩
  · obtain ⟨-, -, hstream, -⟩ := reading_getline_record h hpc hline ans
    obtain rfl := Option.some.inj (hstream.symm.trans hf)
    cases heof

theorem reading_unclean (h : Reading m base ino start consumed rest s) {ans : Answer}
    (unclean : ¬ CleanRead s (.thread ans)) :
    s.pc = .readLogFile .getline ∧ rest ≠ [] ∧ newline ∉ rest := by
  simp only [CleanRead, Classical.not_imp, not_forall, not_or] at unclean
  obtain ⟨hpc, f, hf, hne, hline⟩ := unclean
  obtain rfl := Option.some.inj ((h.at_getline hpc).symm.trans hf)
  rw [h.drop_position] at hne hline
  exact ⟨hpc, hne, hline⟩

end reading

/-- The thread follows one inode from `start` on. -/
def Following (m : Config) (base : List LogEntry) (ino start : Nat) (s : State) : Prop :=
  ∃ consumed rest, Reading m base ino start consumed rest s

theorem following_thread {m : Config} {base : List LogEntry} {ino start : Nat} {s : State}
    (h : Following m base ino start s) {ans : Answer} (clean : CleanRead s (.thread ans))
    (hopen : ∀ sleepM, s.pc = .stillGood (.opening sleepM) → ∀ i, s.fs.path = some i → i = ino)
    (hstat : s.pc = .stillGood .comparing → s.fs.path = some ino) :
    Following m base ino start (thread m ans s) := by
  obtain ⟨consumed, rest, hr⟩ := h
  by_cases hpc : s.pc = .readLogFile .getline
  · rcases reading_getline_cases hr hpc clean with rfl | ⟨line, rest', rfl, hline⟩
    · exact ⟨_, _, (reading_getline_end hr hpc ans).1⟩
    · exact ⟨_, _, (reading_getline_record hr hpc hline ans).1⟩
  · exact ⟨_, _, reading_quiet hr hpc hopen hstat ans⟩

/-- What `openLogFile` leaves: `path` leads to the inode, and start position and
stat size lie in the file. -/
structure Opened (fs : Fs) (ino start size : Nat) : Prop where
  path : fs.path = some ino
  start : start ≤ (fs.file ino).length
  size : size ≤ (fs.file ino).length

/-- The thread follows the inode that `path` leads to, from the first poll on. -/
def Tailed (m : Config) (ino start : Nat) (s : State) : Prop :=
  s.fs.path = some ino ∧ Following m [] ino start s

theorem tailed_started (m : Config) {fs : Fs} {ino start size : Nat} (h : Opened fs ino start size)
    (checkpoint : Option Bytes) (connected : Bool) :
    Tailed m ino start (started fs checkpoint start ⟨ino, size⟩ connected) := by
  refine ⟨h.path, [], (fs.file ino).drop start, h.start, rfl, terminated_nil _, ?_, rfl, rfl,
    h.size, trivial⟩
  simp [started]

theorem tailed_step {m : Config} {ok : Bytes → Prop} {ino start : Nat} {s : State} {a : Act}
    (h : Tailed m ino start s) (appends : Appends ok ino s a) (clean : CleanRead s a) :
    Tailed m ino start (step m s a) := by
  obtain ⟨hpath, hfollow⟩ := h
  cases a with
  | thread ans =>
    refine ⟨(congrArg Fs.path (thread_fs m ans s)).trans hpath, ?_⟩
    apply following_thread hfollow clean
    · intro sleepM _ i hi
      exact Option.some.inj (hi.symm.trans hpath)
    · intro _
      exact hpath
  | external fs =>
    obtain ⟨hp, bytes, _, hfile⟩ := appends
    obtain ⟨consumed, rest, hr⟩ := hfollow
    exact ⟨hp, consumed, rest ++ bytes, hr.external hfile⟩

/-- In a file of whole lines nothing unread is unterminated. -/
theorem Following.cleanRead {m : Config} {base : List LogEntry} {ino start : Nat} {s : State}
    (h : Following m base ino start s)
    (terminated : s.pc = .readLogFile .getline → Terminated newline (s.fs.file ino)) (a : Act) :
    CleanRead s a := by
  cases a with
  | external fs => trivial
  | thread ans =>
    intro hpc f hf
    obtain ⟨consumed, rest, hr⟩ := h
    obtain rfl := Option.some.inj ((hr.at_getline hpc).symm.trans hf)
    by_cases hnil : (s.fs.file ino).drop (start + consumed.length) = []
    · exact Or.inl hnil
    · exact Or.inr (mem_of_terminated (terminated_drop (terminated hpc) _) hnil)

/-- The followed file holds whole lines only. -/
def Lined (m : Config) (ino start : Nat) (s : State) : Prop :=
  Tailed m ino start s ∧ Terminated newline (s.fs.file ino)

theorem lined_step {m : Config} {ino start : Nat} {s : State} {a : Act} (h : Lined m ino start s)
    (appends : Appends (Terminated newline) ino s a) : Lined m ino start (step m s a) := by
  obtain ⟨htail, hterm⟩ := h
  refine ⟨tailed_step htail appends (htail.2.cleanRead (fun _ => hterm) a), ?_⟩
  cases a with
  | thread ans =>
    simp only [step, thread_fs]
    exact hterm
  | external fs =>
    obtain ⟨_, bytes, hbytes, hfile⟩ := appends
    simp only [step, hfile]
    exact (terminated_append hterm).mpr hbytes

theorem lined_started (m : Config) {fs : Fs} {ino start size : Nat}
    (opened : Opened fs ino start size) (lines : Terminated newline (fs.file ino))
    (checkpoint : Option Bytes) (connected : Bool) :
    Lined m ino start (started fs checkpoint start ⟨ino, size⟩ connected) :=
  ⟨tailed_started m opened checkpoint connected, lines⟩

/-- Whole-line appends to a file of whole lines keep every read clean. -/
theorem cleanRead_of_lines (m : Config) {fs : Fs} {ino start size : Nat}
    (opened : Opened fs ino start size) (lines : Terminated newline (fs.file ino))
    (checkpoint : Option Bytes) (connected : Bool) {acts : List Act}
    (appends : Guarded (step m) (Appends (Terminated newline) ino)
      (started fs checkpoint start ⟨ino, size⟩ connected) acts) :
    Guarded (step m) CleanRead (started fs checkpoint start ⟨ino, size⟩ connected) acts := by
  apply guarded_of_invariant (I := Lined m ino start) (R := Appends (Terminated newline) ino)
  · intro s a h hrule
    exact lined_step h hrule
  · intro s a h _
    exact h.1.2.cleanRead (fun _ => h.2) a
  · exact lined_started m opened lines checkpoint connected
  · exact appends

end ModelRead
