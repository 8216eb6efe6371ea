import Logtail.Tailing

/-!
# Line framing of the tail loop

What one step does to the sequence of payloads, against the complete lines of
the file. The law holds of a whole run exactly when no `getline` meets an
unterminated line; the library's `tellg` makes no difference.
-/

namespace ModelRead

open Framing FileStream ScribeSend Transitions

/-- The framing law for one step: the payloads are an initial part of the
complete lines behind `start`, each is a complete line of the file, and they are
all of those lines when a poll reads the end of the file. -/
def LineLaw (m : Config) (ino start : Nat) (s : State) (a : Act) : Prop :=
  let s' := step m s a
  let lines := records newline ((s'.fs.file ino).drop start)
  s'.pushed.map (payload m) <+: lines ∧
    (∀ le ∈ s'.pushed, payload m le ∈ records newline (s'.fs.file ino)) ∧
    (∀ ans, a = .thread ans → ReadsEnd s s' → s'.pushed.map (payload m) = lines)

/-- A followed file whose start position is a line boundary. -/
def Framed (m : Config) (ino start : Nat) (s : State) : Prop :=
  Tailed m ino start s ∧ Terminated newline ((s.fs.file ino).take start)

section

variable {m : Config} {ino start : Nat} {s : State}

theorem framed_step {a : Act} (h : Framed m ino start s)
    (appends : Appends (fun _ => True) ino s a) (clean : CleanRead s a) :
    Framed m ino start (step m s a) := by
  obtain ⟨htail, hboundary⟩ := h
  refine ⟨tailed_step htail appends clean, ?_⟩
  cases a with
  | thread ans =>
    simp only [step, thread_fs]
    exact hboundary
  | external fs =>
    obtain ⟨_, bytes, _, hfile⟩ := appends
    obtain ⟨_, _, _, hr⟩ := htail
    simp only [step, hfile]
    rw [List.take_append_of_le_length hr.inside]
    exact hboundary

theorem Reading.payloads {consumed rest : Bytes} (h : Reading m [] ino start consumed rest s) :
    s.pushed.map (payload m) = records newline consumed := by
  rw [h.pushed, List.nil_append, map_payload_liveEntry]

theorem Framed.payloads_isPrefix (h : Framed m ino start s) :
    s.pushed.map (payload m) <+: records newline ((s.fs.file ino).drop start) := by
  obtain ⟨⟨_, consumed, rest, hr⟩, _⟩ := h
  rw [hr.payloads, hr.records_append]
  exact List.prefix_append _ _

theorem Framed.payload_mem (h : Framed m ino start s) {le : LogEntry} (hle : le ∈ s.pushed) :
    payload m le ∈ records newline (s.fs.file ino) := by
  have hmem : payload m le ∈ s.pushed.map (payload m) := List.mem_map_of_mem hle
  have hline := h.payloads_isPrefix.subset hmem
  rw [← List.take_append_drop start (s.fs.file ino), records_append h.2]
  exact List.mem_append_right _ hline

theorem Framed.payloads_at_end {ans : Answer} (h : Framed m ino start s)
    (clean : CleanRead s (.thread ans)) (hend : ReadsEnd s (thread m ans s)) :
    (thread m ans s).pushed.map (payload m) =
      records newline (((thread m ans s).fs.file ino).drop start) := by
  obtain ⟨⟨_, consumed, rest, hr⟩, _⟩ := h
  obtain ⟨hr', -⟩ := reading_readsEnd hr clean hend
  rw [hr'.payloads, hr'.records_append, records_nil, List.append_nil]

theorem lineLaw_of_cleanRead {a : Act} (h : Framed m ino start s)
    (appends : Appends (fun _ => True) ino s a) (clean : CleanRead s a) :
    LineLaw m ino start s a := by
  have h' := framed_step h appends clean
  refine ⟨h'.payloads_isPrefix, fun le hle => h'.payload_mem hle, ?_⟩
  rintro ans rfl hend
  exact h.payloads_at_end clean hend

/-- An unterminated line is one payload too many. -/
theorem not_lineLaw_of_unclean {a : Act} (h : Framed m ino start s) (unclean : ¬ CleanRead s a) :
    ¬ LineLaw m ino start s a := by
  rintro ⟨hinitial, -, -⟩
  cases a with
  | external fs => exact unclean trivial
  | thread ans =>
    obtain ⟨⟨_, consumed, rest, hr⟩, _⟩ := h
    obtain ⟨hpc, hne, hline⟩ := reading_unclean hr unclean
    obtain ⟨hfs, hpushed, -⟩ := reading_getline_unterminated hr hpc hne hline ans
    have hlen := hinitial.length_le
    simp only [step] at hlen
    rw [hfs, hr.records_append, records_of_not_mem hline, hpushed, List.map_append,
      hr.payloads] at hlen
    simp at hlen

end

/-- For every file that is only appended to, in any pieces and between any steps,
every start at a line boundary, every server and both libraries: each step obeys
the framing law exactly when no `getline` step meets an unterminated line. -/
theorem lineLaw_iff_cleanRead (m : Config) {fs : Fs} {ino start size : Nat}
    (opened : Opened fs ino start size)
    (boundary : Terminated newline ((fs.file ino).take start))
    (checkpoint : Option Bytes) (connected : Bool) {acts : List Act}
    (appends : Guarded (step m) (Appends (fun _ => True) ino)
      (started fs checkpoint start ⟨ino, size⟩ connected) acts) :
    Guarded (step m) (LineLaw m ino start)
        (started fs checkpoint start ⟨ino, size⟩ connected) acts ↔
      Guarded (step m) CleanRead (started fs checkpoint start ⟨ino, size⟩ connected) acts := by
  apply guarded_iff_guarded (I := Framed m ino start) (R := Appends (fun _ => True) ino)
  · intro s a h hrule hclean
    exact framed_step h hrule hclean
  · intro s a h hrule
    constructor
    · intro hlaw
      by_contra hunclean
      exact not_lineLaw_of_unclean h hunclean hlaw
    · exact lineLaw_of_cleanRead h hrule
  · exact ⟨tailed_started m opened checkpoint connected, boundary⟩
  · exact appends

/-- The writer appends `bytes` to an empty file, and one poll follows. -/
def appendThenPoll (bytes : Bytes) : List Act :=
  .external (oneFile 7 bytes) :: List.replicate 8 (.thread (allWell 1))

theorem lineLaw_appendThenPoll :
    Guarded (step (shortModel .cxx11)) (LineLaw (shortModel .cxx11) 7 0)
      (started (oneFile 7 []) none 0 ⟨7, 0⟩ true) (appendThenPoll [97, newline]) := by
  have appends : ∀ bytes, Terminated newline bytes →
      Guarded (step (shortModel .cxx11)) (Appends (Terminated newline) 7)
        (started (oneFile 7 []) none 0 ⟨7, 0⟩ true) (appendThenPoll bytes) := by
    intro bytes hbytes
    refine ⟨⟨rfl, bytes, hbytes, rfl⟩, ?_⟩
    exact ⟨trivial, trivial, trivial, trivial, trivial, trivial, trivial, trivial, trivial⟩
  have opened : Opened (oneFile 7 []) 7 0 0 := ⟨rfl, by decide, by decide⟩
  have hlines := appends [97, newline] (by decide)
  refine (lineLaw_iff_cleanRead (shortModel .cxx11) opened (by decide) none true ?_).mpr ?_
  · apply guarded_mono _ hlines
    intro s a h
    cases a with
    | thread ans => trivial
    | external fs =>
      obtain ⟨hp, bytes, _, hfile⟩ := h
      exact ⟨hp, bytes, trivial, hfile⟩
  · exact cleanRead_of_lines (shortModel .cxx11) opened (by decide) none true hlines

/-- The poll meets `a` before its newline is written and sends it as a line. -/
theorem not_lineLaw_appendThenPoll :
    (Guarded (step (shortModel .cxx98)) (Appends (fun _ => True) 7)
        (started (oneFile 7 []) none 0 ⟨7, 0⟩ true) (appendThenPoll [97]) ∧
      ¬ Guarded (step (shortModel .cxx98)) (LineLaw (shortModel .cxx98) 7 0)
        (started (oneFile 7 []) none 0 ⟨7, 0⟩ true) (appendThenPoll [97])) ∧
    (Guarded (step (shortModel .cxx11)) (Appends (fun _ => True) 7)
        (started (oneFile 7 []) none 0 ⟨7, 0⟩ true) (appendThenPoll [97]) ∧
      ¬ Guarded (step (shortModel .cxx11)) (LineLaw (shortModel .cxx11) 7 0)
        (started (oneFile 7 []) none 0 ⟨7, 0⟩ true) (appendThenPoll [97])) := by
  have appends : ∀ lib, Guarded (step (shortModel lib)) (Appends (fun _ => True) 7)
      (started (oneFile 7 []) none 0 ⟨7, 0⟩ true) (appendThenPoll [97]) := by
    intro lib
    refine ⟨⟨rfl, [97], trivial, rfl⟩, ?_⟩
    exact ⟨trivial, trivial, trivial, trivial, trivial, trivial, trivial, trivial, trivial⟩
  refine ⟨⟨appends .cxx98, ?_⟩, ⟨appends .cxx11, ?_⟩⟩
  · rintro ⟨-, -, -, -, -, ⟨hinitial, -⟩, -⟩
    exact absurd hinitial (by decide)
  · rintro ⟨-, -, -, -, -, ⟨hinitial, -⟩, -⟩
    exact absurd hinitial (by decide)

end ModelRead
