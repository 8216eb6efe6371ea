import Logtail.Tailing

/-!
# The position and the queue

Where `position` stands while one file is followed: at the end of the last
queued line, inside the file, and before a line that the next poll queues. The
first holds of files read with whole lines, the others up to the first `getline`
step that meets an unterminated line.
-/

namespace ModelRead

open Framing FileStream ScribeSend Checkpoint Transitions

/-- The file is newline-terminated when a line is read. -/
def TerminatedRead (ino : Nat) (s : State) : Act → Prop
  | .external _ => True
  | .thread _ => s.pc = .readLogFile .getline → Terminated newline (s.fs.file ino)

def threadSteps : List Act → Nat
  | [] => 0
  | .thread _ :: acts => threadSteps acts + 1
  | .external _ :: acts => threadSteps acts

/-- The places of a poll up to its first `getline`, with the steps left. -/
inductive BeforeGetline : Nat → Pc → Prop where
  | polling : BeforeGetline 4 (.logtailFile .polling)
  | opening (sleepM : Int) : BeforeGetline 3 (.stillGood (.opening sleepM))
  | comparing : BeforeGetline 2 (.stillGood .comparing)
  | seeking : BeforeGetline 1 (.readLogFile .seeking)
  | getline : BeforeGetline 0 (.readLogFile .getline)

section

variable {m : Config} {base : List LogEntry} {ino start : Nat} {consumed rest : Bytes} {s : State}

/-- The consumed part is what lies between start position and position. -/
theorem Reading.consumed_eq (h : Reading m base ino start consumed rest s) :
    ((s.fs.file ino).take s.position.toNat).drop start = consumed := by
  rw [h.toNat_position, List.drop_take, h.content, Nat.add_sub_cancel_left, List.take_left]

theorem beforeGetline_thread (h : Reading m base ino start consumed rest s)
    (hpath : s.fs.path = some ino) {n : Nat} (hn : BeforeGetline (n + 1) s.pc) (ans : Answer) :
    BeforeGetline n (thread m ans s).pc := by
  generalize hp : s.pc = pc at hn
  cases hn with
  | polling =>
    rw [thread_logtailFile m ans hp]
    exact .opening 5
  | opening sleepM =>
    rw [thread_stillGood m ans hp]
    simp only [stillGood, hpath]
    exact .comparing
  | comparing =>
    have hstat : s.fs.stat = some ⟨ino, (s.fs.file ino).length⟩ := by simp [Fs.stat, hpath]
    rw [thread_stillGood m ans hp]
    simp only [stillGood, hstat, Option.getD_some, h.rotation_none]
    exact .seeking
  | seeking =>
    rw [thread_readLogFile m ans hp]
    exact .getline

/-- A poll that has a complete line before it queues a message, whatever is
appended meanwhile. -/
theorem queues_within {n : Nat} {acts : List Act} (h : Reading m base ino start consumed rest s)
    (hpath : s.fs.path = some ino) (hn : BeforeGetline n s.pc) (hline : newline ∈ rest)
    (appends : Guarded (step m) (Appends (fun _ => True) ino) s acts)
    (enough : n < threadSteps acts) :
    s.pushed.length < (run (step m) s acts).pushed.length := by
  induction acts generalizing s n rest with
  | nil => simp [threadSteps] at enough
  | cons a acts ih =>
    obtain ⟨hrule, hrules⟩ := appends
    cases a with
    | external fs =>
      obtain ⟨hp, bytes, _, hfile⟩ := hrule
      exact ih (h.external hfile) hp hn (List.mem_append_left _ hline) hrules enough
    | thread ans =>
      have hpath' : (thread m ans s).fs.path = some ino := by rw [thread_fs, hpath]
      cases n with
      | zero =>
        generalize hp : s.pc = pc at hn
        cases hn
        rcases cut_cases newline rest with hno | ⟨line, rest', rfl, hno⟩
        · exact absurd hline hno
        · obtain ⟨-, hpushed, -⟩ := reading_getline_record h hp hno ans
          have hmore := (pushed_prefix_run m (thread m ans s) acts).length_le
          rw [hpushed, List.length_append, List.length_singleton] at hmore
          exact hmore
      | succ n =>
        have hquiet : Reading m base ino start consumed rest (thread m ans s) := by
          apply reading_quiet h
          · intro hp
            rw [hp] at hn
            cases hn
          · intro sleepM _ i hi
            exact Option.some.inj (hi.symm.trans hpath)
          · intro _
            exact hpath
        have hsteps : n < threadSteps acts := by
          simp only [threadSteps] at enough
          omega
        have hlt := ih hquiet hpath' (beforeGetline_thread h hpath hn ans) hline hrules hsteps
        exact Nat.lt_of_le_of_lt (pushed_prefix_step m s (.thread ans)).length_le hlt

end

/-- For every start, every run of appends whose reads find whole lines, every
batch limit and every server: in each state reached, the loop head among them,
the messages ever pushed are the lines between start position and position, and
the position stands at the end of a line. -/
theorem pushed_eq_lines (m : Config) {fs : Fs} {ino start size : Nat}
    (opened : Opened fs ino start size) (checkpoint : Option Bytes) (connected : Bool)
    (acts : List Act)
    (appends : Guarded (step m) (Appends (fun _ => True) ino)
      (started fs checkpoint start ⟨ino, size⟩ connected) acts)
    (terminated : Guarded (step m) (TerminatedRead ino)
      (started fs checkpoint start ⟨ino, size⟩ connected) acts) :
    let s := run (step m) (started fs checkpoint start ⟨ino, size⟩ connected) acts
    let region := ((s.fs.file ino).take s.position.toNat).drop start
    (start : Int) ≤ s.position ∧ s.position ≤ (s.fs.file ino).length ∧
      Terminated newline region ∧ s.pushed = (records newline region).map (liveEntry m) := by
  have htail : Tailed m ino start
      (run (step m) (started fs checkpoint start ⟨ino, size⟩ connected) acts) := by
    apply invariant_run (I := Tailed m ino start) _ (tailed_started m opened checkpoint connected)
      (guarded_and appends terminated)
    rintro s a h ⟨happend, hread⟩
    apply tailed_step h happend
    cases a with
    | external fs => trivial
    | thread ans => exact h.2.cleanRead hread (.thread ans)
  obtain ⟨_, consumed, rest, hr⟩ := htail
  intro s region
  have hregion : region = consumed := hr.consumed_eq
  have hpos : s.position = start + consumed.length := hr.position
  refine ⟨?_, hr.inFile.2, ?_, ?_⟩
  · omega
  · rw [hregion]
    exact hr.complete
  · rw [hregion]
    exact hr.pushed

/-- One poll, during which the writer completes a second line. -/
def appendInPoll : List Act :=
  List.replicate 5 (.thread (allWell 1)) ++ .external (oneFile 7 [97, newline, 98, newline]) ::
    List.replicate 6 (.thread (allWell 1))

theorem pushed_eq_lines_appendInPoll :
    (run (step (shortModel .cxx11)) (started (oneFile 7 [97, newline]) none 0 ⟨7, 2⟩ true)
      appendInPoll).pushed = [⟨[99], [61, 97, newline]⟩, ⟨[99], [61, 98, newline]⟩] := by
  have opened : Opened (oneFile 7 [97, newline]) 7 0 2 := ⟨rfl, by decide, by decide⟩
  have hpushed := (pushed_eq_lines (shortModel .cxx11) opened none true appendInPoll
    ⟨trivial, trivial, trivial, trivial, trivial, ⟨rfl, [98, newline], trivial, rfl⟩,
      trivial, trivial, trivial, trivial, trivial, trivial, trivial⟩
    ⟨fun _ => rfl, fun _ => rfl, fun _ => rfl, fun _ => rfl, fun _ => rfl, trivial,
      fun _ => rfl, fun _ => rfl, fun _ => rfl, fun _ => rfl, fun _ => rfl, fun _ => rfl,
      trivial⟩).2.2.2
  exact hpushed.trans (by decide)

/-- The stored position of every completed record is an offset of the file. -/
def StoredInFile (ino : Nat) (s : State) : Prop :=
  (∃ tTime, Event.rewritten tTime ∈ s.history) →
    (∀ tTime writeInfo, s.pc ≠ .writeCheckpoint (.writing tTime writeInfo)) →
      ∃ p, Stored s.checkpoint p ∧ InFile ino s p

/-- A call of `readLogFile` that finds a complete line behind the position queues
a message, at its fifth step at the latest. -/
def Progresses (m : Config) (ino : Nat) (s : State) : Prop :=
  s.pc = .logtailFile .polling → newline ∈ (s.fs.file ino).drop s.position.toNat →
    ∀ acts, Guarded (step m) (Appends (fun _ => True) ino) s acts → 5 ≤ threadSteps acts →
      s.pushed.length < (run (step m) s acts).pushed.length

/-- Tailing is not wedged. -/
def Unwedged (m : Config) (ino : Nat) (s : State) : Prop :=
  InFile ino s s.position ∧ StoredInFile ino s ∧ Progresses m ino s

/-- The record that is written, or has been written, holds an offset of the file. -/
structure RecordInFile (m : Config) (ino : Nat) (s : State) : Prop where
  writing : ∀ tTime writeInfo, s.pc = .writeCheckpoint (.writing tTime writeInfo) →
    ∃ p, writeInfo = checkpointLine tTime p m.path ∧ InFile ino s p
  written : StoredInFile ino s

section

variable {m : Config} {ino start : Nat} {s : State}

theorem InFile.external {p : Int} (h : InFile ino s p) {fs : Fs} {bytes : Bytes}
    (hfile : fs.file ino = s.fs.file ino ++ bytes) : InFile ino { s with fs := fs } p := by
  have := h.2
  refine ⟨h.1, ?_⟩
  simp only [hfile, List.length_append]
  omega

theorem recordInFile_frame {s' : State} (h : RecordInFile m ino s) (hframe : Frame s s')
    (hpc : ∀ tTime writeInfo, s.pc ≠ .writeCheckpoint (.writing tTime writeInfo)) :
    RecordInFile m ino s' := by
  refine ⟨fun tTime writeInfo hp => absurd hp (hframe.pc tTime writeInfo), ?_⟩
  rintro ⟨tTime, hmem⟩ _
  obtain ⟨events, hevents, hnone⟩ := hframe.history
  rw [hevents] at hmem
  rcases List.mem_append.mp hmem with hmem | hmem
  · obtain ⟨p, hp, hin⟩ := h.written ⟨tTime, hmem⟩ hpc
    refine ⟨p, by rwa [hframe.checkpoint], ?_⟩
    rw [InFile, hframe.fs]
    exact hin
  · exact absurd hmem (hnone tTime)

theorem recordInFile_step {a : Act} (h : RecordInFile m ino s) (htail : Tailed m ino start s)
    (appends : Appends (fun _ => True) ino s a) : RecordInFile m ino (step m s a) := by
  cases a with
  | external fs =>
    obtain ⟨_, bytes, _, hfile⟩ := appends
    constructor
    · intro tTime writeInfo hp
      obtain ⟨p, hw, hin⟩ := h.writing tTime writeInfo hp
      exact ⟨p, hw, hin.external hfile⟩
    · intro hrewritten hpc
      obtain ⟨p, hp, hin⟩ := h.written hrewritten hpc
      exact ⟨p, hp, hin.external hfile⟩
  | thread ans =>
    by_cases hw : ∃ place, s.pc = .writeCheckpoint place
    · obtain ⟨place, hp⟩ := hw
      obtain ⟨_, consumed, rest, hr⟩ := htail
      simp only [step, thread_writeCheckpoint m ans hp]
      cases place with
      | timing =>
        simp only [writeCheckpoint]
        split
        · constructor
          · intro tTime writeInfo hwriting
            cases hwriting
            exact ⟨s.position, rfl, hr.inFile⟩
          · intro _ hpc
            exact absurd rfl (hpc ans.clock _)
        · exact recordInFile_frame h (frame_of_eq rfl rfl rfl (by simp)) (by simp [hp])
      | writing tTime writeInfo =>
        obtain ⟨p, rfl, hin⟩ := h.writing tTime writeInfo hp
        constructor
        · intro tTime' writeInfo' hwriting
          cases hwriting
        · intro _ _
          exact ⟨p, stored_checkpointLine tTime p m.path, hin⟩
    · apply recordInFile_frame h (frame_thread m ans (not_exists.mp hw))
      intro tTime writeInfo hp
      exact hw ⟨_, hp⟩

theorem progresses_of_tailed (h : Tailed m ino start s) : Progresses m ino s := by
  intro hpc hline acts appends enough
  obtain ⟨hpath, consumed, rest, hr⟩ := h
  rw [hr.toNat_position, hr.drop_position] at hline
  have hn : BeforeGetline 4 s.pc := by
    rw [hpc]
    exact .polling
  exact queues_within hr hpath hn hline appends enough

end

/-- With the `tellg` of C++11, for every start position in the file and every
way of appending: position and stored positions stay offsets of the file and
polls make progress exactly as long as no `getline` step meets an unterminated
line. -/
theorem unwedged_iff_cleanRead (m : Config) (hlib : m.lib = .cxx11) {fs : Fs}
    {ino start size : Nat} (opened : Opened fs ino start size) (checkpoint : Option Bytes)
    (connected : Bool) {acts : List Act}
    (appends : Guarded (step m) (Appends (fun _ => True) ino)
      (started fs checkpoint start ⟨ino, size⟩ connected) acts) :
    Always (step m) (Unwedged m ino) (started fs checkpoint start ⟨ino, size⟩ connected) acts ↔
      Guarded (step m) CleanRead (started fs checkpoint start ⟨ino, size⟩ connected) acts := by
  apply always_iff_guarded (I := fun s => Tailed m ino start s ∧ RecordInFile m ino s)
    (R := Appends (fun _ => True) ino)
  · rintro s ⟨htail, hrecord⟩
    have hprogress := progresses_of_tailed htail
    obtain ⟨_, consumed, rest, hr⟩ := htail
    exact ⟨hr.inFile, hrecord.written, hprogress⟩
  · rintro s a ⟨htail, hrecord⟩ hrule hclean
    exact ⟨tailed_step htail hrule hclean, recordInFile_step hrecord htail hrule⟩
  · rintro s a ⟨⟨_, consumed, rest, hr⟩, _⟩ _ hunclean ⟨⟨hlow, _⟩, _⟩
    cases a with
    | external fs => exact hunclean trivial
    | thread ans =>
      obtain ⟨hpc, hne, hline⟩ := reading_unclean hr hunclean
      have hpos := (reading_getline_unterminated hr hpc hne hline ans).2.2 hlib
      rw [step, hpos] at hlow
      omega
  · refine ⟨tailed_started m opened checkpoint connected, ?_, ?_⟩
    · intro tTime writeInfo hp
      cases hp
    · rintro ⟨tTime, hmem⟩
      cases hmem
  · exact appends

theorem unwedged_wholeLine :
    Always (step (shortModel .cxx11)) (Unwedged (shortModel .cxx11) 7)
      (started (oneFile 7 [97, newline]) none 0 ⟨7, 2⟩ true)
      (List.replicate 8 (.thread (allWell 0))) := by
  have opened : Opened (oneFile 7 [97, newline]) 7 0 2 := ⟨rfl, by decide, by decide⟩
  refine (unwedged_iff_cleanRead (shortModel .cxx11) rfl opened none true ?_).mpr ?_
  · exact ⟨trivial, trivial, trivial, trivial, trivial, trivial, trivial, trivial, trivial⟩
  · apply cleanRead_of_lines (shortModel .cxx11) opened (by decide) none true
    exact ⟨trivial, trivial, trivial, trivial, trivial, trivial, trivial, trivial, trivial⟩

/-- The poll that meets `a` without a newline leaves the position at -1 and writes
it to the checkpoint. -/
theorem not_unwedged_partialLine :
    Guarded (step (shortModel .cxx11)) (Appends (fun _ => True) 7)
        (started (oneFile 7 [97]) none 0 ⟨7, 1⟩ true)
        (List.replicate 8 (.thread (allWell 0))) ∧
      (run (step (shortModel .cxx11)) (started (oneFile 7 [97]) none 0 ⟨7, 1⟩ true)
        (List.replicate 8 (.thread (allWell 0)))).position = -1 ∧
      Stored (run (step (shortModel .cxx11)) (started (oneFile 7 [97]) none 0 ⟨7, 1⟩ true)
        (List.replicate 8 (.thread (allWell 0)))).checkpoint (-1) ∧
      ¬ Always (step (shortModel .cxx11)) (Unwedged (shortModel .cxx11) 7)
        (started (oneFile 7 [97]) none 0 ⟨7, 1⟩ true)
        (List.replicate 8 (.thread (allWell 0))) := by
  refine ⟨?_, by decide, stored_checkpointLine 0 (-1) [112], ?_⟩
  · exact ⟨trivial, trivial, trivial, trivial, trivial, trivial, trivial, trivial, trivial⟩
  · rintro ⟨-, -, -, -, -, ⟨⟨hlow, -⟩, -⟩, -⟩
    exact absurd hlow (by decide)

end ModelRead
