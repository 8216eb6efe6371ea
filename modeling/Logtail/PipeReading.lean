import Logtail.Checkpoint
import Logtail.Transitions

/-!
# Lines from a named pipe

`readFIFO` collects what `read` returns and cuts it into lines. The buffer is
turned into a string by its terminator: a NUL byte in it hides the rest of the
chunk, and a full buffer has no terminator of its own. The descriptor is taken
to be the opened pipe.
-/

namespace ModelRead

open Framing FileStream Checkpoint Transitions

/-- `BUFFER_SIZE`, which is `PIPE_BUF`. -/
def bufferSize : Nat := 4096

/-- What `read(fd,buf_r,BUFFER_SIZE+1)` returns. Without data it is -1, and whatever `errno` is,
the round ends there. -/
inductive Nread where
  | failed
  | chunk (bytes : Bytes) (fits : bytes.length ≤ bufferSize + 1)

def Nread.bytes : Nread → Bytes
  | .failed => []
  | .chunk bytes _ => bytes

/-- One round of the loop, with the memory behind `buf_r`. -/
structure Round where
  nread : Nread
  memory : Bytes

/-- The local variables, the queue, and all that was ever pushed to it. -/
structure Fifo where
  temp : Bytes
  messageQueue : List Bytes
  pushed : List Bytes

def suffix : Bytes := ascii "test_suffix&_data="

/-- `buf_r` is zeroed before each `read`. -/
def bufR (bytes memory : Bytes) : Bytes :=
  bytes ++ List.replicate (bufferSize + 1 - bytes.length) nul ++ memory

namespace Fifo

def push (s : Fifo) (message : Bytes) : Fifo :=
  { s with messageQueue := s.messageQueue ++ [message], pushed := s.pushed ++ [message] }

/-- `while(temp.find_first_of("\n")!=std::string::npos)` -/
def pushLines (s : Fifo) : Fifo :=
  match _h : cut newline s.temp with
  | none => s
  | some (line, rest) => pushLines ({ s with temp := rest }.push (suffix ++ line))
termination_by s.temp.length
decreasing_by
  obtain ⟨htemp, -⟩ := (cut_eq_some_iff newline s.temp line rest).mp ‹_›
  rw [htemp, List.length_append, List.length_cons]
  simp only [push]
  omega

/-- `while (!message_queue.empty())`; nothing is done with the messages. -/
def popAll (s : Fifo) : Fifo := { s with messageQueue := [] }

def round (s : Fifo) (r : Round) : Fifo :=
  match r.nread with
  | .failed => s
  | .chunk bytes _ =>
    -- an empty `temp` is assigned to, which comes to the same
    ({ s with temp := s.temp ++ cString (bufR bytes r.memory) }.pushLines).popAll

end Fifo

def readFIFO (rounds : List Round) : Fifo := run Fifo.round ⟨[], [], []⟩ rounds

/-- The bytes that a round adds to `temp`. -/
def Nread.text (memory : Bytes) : Nread → Bytes
  | .failed => []
  | .chunk bytes _ => cString (bufR bytes memory)

def textOf (rounds : List Round) : Bytes := rounds.flatMap fun r => r.nread.text r.memory

/-- The stream that the chunks make up. -/
def streamOf (reads : List Nread) : Bytes := reads.flatMap Nread.bytes

/-- Each line of the stream has been pushed, and `temp` holds what is behind the last newline. -/
structure ReadsLines (stream : Bytes) (s : Fifo) : Prop where
  pushed : s.pushed = (records newline stream).map (suffix ++ ·)
  temp : s.temp = residue newline stream

/-- The terminator behind the chunk is the first one in the buffer. -/
def Nread.Clean (r : Nread) : Prop := nul ∉ r.bytes ∧ r.bytes.length ≤ bufferSize

section

variable {bytes : Bytes}

theorem cString_bufR (h : nul ∉ bytes) (memory : Bytes) :
    cString (bufR bytes memory) = bytes ++
      cString (List.replicate (bufferSize + 1 - bytes.length) nul ++ memory) := by
  rw [bufR, List.append_assoc, cString_append h]

theorem cString_room (h : nul ∉ bytes) (room : bytes.length ≤ bufferSize) (memory : Bytes) :
    cString (bufR bytes memory) = bytes := by
  have hzeros : bufferSize + 1 - bytes.length = bufferSize - bytes.length + 1 := by omega
  rw [cString_bufR h, hzeros, List.replicate_succ]
  simp [cString]

/-- A full buffer runs on into the memory behind it. -/
theorem cString_full (h : nul ∉ bytes) (full : bytes.length = bufferSize + 1) (memory : Bytes) :
    cString (bufR bytes memory) = bytes ++ cString memory := by
  rw [cString_bufR h, full, Nat.sub_self, List.replicate_zero, List.nil_append]

theorem cString_bufR_length_lt (h : nul ∈ bytes) (memory : Bytes) :
    (cString (bufR bytes memory)).length < bytes.length := by
  rw [bufR, List.append_assoc]
  exact cString_length_lt h _

end

/-- A clean chunk is added as it is, a NUL makes it shorter, and a full one brings in memory. -/
theorem Nread.text_cases (r : Nread) (memory : Bytes) :
    (r.Clean ∧ r.text memory = r.bytes) ∨
    (nul ∈ r.bytes ∧ (r.text memory).length < r.bytes.length) ∨
    (nul ∉ r.bytes ∧ ¬ r.Clean ∧ r.text memory = r.bytes ++ cString memory) := by
  cases r with
  | failed => exact Or.inl ⟨⟨List.not_mem_nil, Nat.zero_le _⟩, rfl⟩
  | chunk bytes fits =>
    by_cases h : nul ∈ bytes
    · exact Or.inr (Or.inl ⟨h, cString_bufR_length_lt h memory⟩)
    · rcases Nat.lt_or_eq_of_le fits with hroom | hfull
      · have hroom := Nat.le_of_lt_succ hroom
        exact Or.inl ⟨⟨h, hroom⟩, cString_room h hroom memory⟩
      · have hover : ¬ (Nread.chunk bytes fits).Clean := fun hclean => by
          have hroom : bytes.length ≤ bufferSize := hclean.2
          omega
        exact Or.inr (Or.inr ⟨h, hover, cString_full h hfull memory⟩)

namespace Fifo

theorem pushLines_eq (s : Fifo) :
    s.pushLines = ⟨residue newline s.temp,
      s.messageQueue ++ (records newline s.temp).map (suffix ++ ·),
      s.pushed ++ (records newline s.temp).map (suffix ++ ·)⟩ := by
  obtain ⟨temp, messageQueue, pushed⟩ := s
  induction temp using framing_induction newline generalizing messageQueue pushed with
  | tail temp h =>
    rw [pushLines]
    split
    · simp [records_of_not_mem h, residue_of_not_mem h]
    · rename_i line rest hcut
      rw [(cut_eq_none_iff newline temp).mpr h] at hcut
      cases hcut
  | record line rest h ih =>
    rw [pushLines]
    split
    · rename_i hcut
      exact absurd ((cut_eq_none_iff _ _).mp hcut) (by simp)
    · rename_i line' rest' hcut
      rw [(cut_eq_some_iff newline _ line rest).mpr ⟨rfl, h⟩] at hcut
      obtain ⟨rfl, rfl⟩ := Prod.mk.inj (Option.some.inj hcut)
      rw [push, ih]
      simp [records_record h, residue_record h]

end Fifo

/-- After any rounds the lines of the collected text have been pushed. -/
theorem run_round (rounds : List Round) (s : Fifo) (text : Bytes)
    (h : ReadsLines text s) : ReadsLines (text ++ textOf rounds) (run Fifo.round s rounds) := by
  induction rounds generalizing s text with
  | nil => simpa [textOf] using h
  | cons r rounds ih =>
    have hround : ReadsLines (text ++ r.nread.text r.memory) (s.round r) := by
      obtain ⟨hpushed, htemp⟩ := h
      cases hread : r.nread with
      | failed =>
        simp only [Fifo.round, hread, Nread.text, List.append_nil]
        exact ⟨hpushed, htemp⟩
      | chunk bytes fits =>
        simp only [Fifo.round, hread, Nread.text, Fifo.popAll, Fifo.pushLines_eq]
        refine ⟨?_, ?_⟩
        · simp only [hpushed, htemp]
          rw [records_append_residue newline text, List.map_append]
        · simp only [htemp]
          rw [residue_append_residue newline text]
    have hrest := ih (s.round r) _ hround
    rwa [List.append_assoc] at hrest

theorem readsLines_textOf (rounds : List Round) :
    ReadsLines (textOf rounds) (readFIFO rounds) :=
  run_round rounds ⟨[], [], []⟩ [] ⟨rfl, rfl⟩

theorem suffix_injective : Function.Injective fun line : Bytes => suffix ++ line :=
  fun _ _ h => List.append_cancel_left h

/-- The pushed strings and `temp` determine the text. -/
theorem readsLines_iff {stream : Bytes} {rounds : List Round} :
    ReadsLines stream (readFIFO rounds) ↔ textOf rounds = stream := by
  have htext := readsLines_textOf rounds
  constructor
  · intro h
    have hrecords := List.map_injective_iff.mpr suffix_injective (htext.pushed.symm.trans h.pushed)
    have hresidue := htext.temp.symm.trans h.temp
    rw [← join_records newline (textOf rounds), hrecords, hresidue, join_records]
  · rintro rfl
    exact htext

section

variable {α β : Type} {f g : α → List β} {xs : List α}

theorem length_flatMap_le (h : ∀ x ∈ xs, (f x).length ≤ (g x).length) :
    (xs.flatMap f).length ≤ (xs.flatMap g).length := by
  induction xs with
  | nil => exact Nat.le_refl _
  | cons x xs ih =>
    obtain ⟨hx, hxs⟩ := List.forall_mem_cons.mp h
    have hrest := ih hxs
    rw [List.flatMap_cons, List.flatMap_cons, List.length_append, List.length_append]
    omega

/-- No part can be longer in one of two equal concatenations when none is in the other. -/
theorem eq_of_flatMap_eq (hle : ∀ x ∈ xs, (f x).length ≤ (g x).length)
    (h : xs.flatMap f = xs.flatMap g) : ∀ x ∈ xs, f x = g x := by
  induction xs with
  | nil => exact fun x hx => absurd hx List.not_mem_nil
  | cons x xs ih =>
    obtain ⟨hx, hxs⟩ := List.forall_mem_cons.mp hle
    have hrest := length_flatMap_le hxs
    rw [List.flatMap_cons, List.flatMap_cons] at h
    have hlen := congrArg List.length h
    rw [List.length_append, List.length_append] at hlen
    obtain ⟨hfirst, hothers⟩ := List.append_inj h (by omega)
    exact List.forall_mem_cons.mpr ⟨hfirst, ih hxs hothers⟩

end

/-- The rounds of these reads, always with the same memory behind the buffer. -/
def roundsWith (memory : Bytes) (reads : List Nread) : List Round :=
  reads.map fun r => ⟨r, memory⟩

theorem map_nread_roundsWith (memory : Bytes) (reads : List Nread) :
    (roundsWith memory reads).map Round.nread = reads := by
  simp [roundsWith, Function.comp_def]

theorem textOf_roundsWith (memory : Bytes) (reads : List Nread) :
    textOf (roundsWith memory reads) = reads.flatMap (Nread.text memory) := by
  simp [textOf, roundsWith, List.flatMap_map]

theorem text_clean {r : Nread} (h : r.Clean) (memory : Bytes) : r.text memory = r.bytes := by
  rcases r.text_cases memory with ⟨-, htext⟩ | ⟨hnul, -⟩ | ⟨-, hnot, -⟩
  · exact htext
  · exact absurd hnul h.1
  · exact absurd h hnot

theorem textOf_clean {rounds : List Round} (h : ∀ r ∈ rounds, r.nread.Clean) :
    textOf rounds = streamOf (rounds.map Round.nread) := by
  rw [textOf, streamOf, List.flatMap_map]
  exact List.flatMap_congr fun r hr => text_clean (h r hr) r.memory

/-- Zeros behind the buffer bring in nothing, so that a NUL in a chunk shows. -/
theorem nul_not_mem_of_text {reads : List Nread}
    (h : reads.flatMap (Nread.text []) = streamOf reads) : ∀ r ∈ reads, nul ∉ r.bytes := by
  have hle : ∀ r ∈ reads, (r.text []).length ≤ r.bytes.length := by
    intro r _
    rcases r.text_cases [] with ⟨-, htext⟩ | ⟨-, hlt⟩ | ⟨-, -, htext⟩
    · rw [htext]
    · exact Nat.le_of_lt hlt
    · rw [htext]
      simp [cString]
  intro r hr hnul
  have htext := eq_of_flatMap_eq hle h r hr
  rcases r.text_cases [] with ⟨hclean, -⟩ | ⟨-, hlt⟩ | ⟨hno, -, -⟩
  · exact hclean.1 hnul
  · rw [htext] at hlt
    exact Nat.lt_irrefl _ hlt
  · exact hno hnul

/-- A byte behind the buffer is taken for a byte of a full chunk. -/
theorem clean_of_text {reads : List Nread} (hnul : ∀ r ∈ reads, nul ∉ r.bytes)
    (h : reads.flatMap (Nread.text [newline]) = streamOf reads) : ∀ r ∈ reads, r.Clean := by
  have hge : ∀ r ∈ reads, r.bytes.length ≤ (r.text [newline]).length := by
    intro r hr
    rcases r.text_cases [newline] with ⟨-, htext⟩ | ⟨hmem, -⟩ | ⟨-, -, htext⟩
    · rw [htext]
    · exact absurd hmem (hnul r hr)
    · rw [htext, List.length_append]
      exact Nat.le_add_right _ _
  intro r hr
  have htext := eq_of_flatMap_eq hge h.symm r hr
  rcases r.text_cases [newline] with ⟨hclean, -⟩ | ⟨hmem, -⟩ | ⟨-, -, hlonger⟩
  · exact hclean
  · exact absurd hmem (hnul r hr)
  · rw [hlonger] at htext
    exact absurd (List.self_eq_append_right.mp htext) (by decide)

/-- For every stream and every way in which `read` cuts it: whatever is in the memory behind the
buffer, each line is pushed once and the rest is kept, exactly when no chunk has a NUL byte or
fills the buffer. -/
theorem readFIFO_chunking (reads : List Nread) :
    (∀ rounds : List Round, rounds.map Round.nread = reads →
        ReadsLines (streamOf reads) (readFIFO rounds)) ↔
      ∀ r ∈ reads, nul ∉ r.bytes ∧ r.bytes.length ≤ bufferSize := by
  constructor
  · intro h
    have hwith : ∀ memory, reads.flatMap (Nread.text memory) = streamOf reads := by
      intro memory
      rw [← textOf_roundsWith]
      exact readsLines_iff.mp (h _ (map_nread_roundsWith memory reads))
    exact clean_of_text (nul_not_mem_of_text (hwith [])) (hwith [newline])
  · rintro h rounds rfl
    refine readsLines_iff.mpr (textOf_clean fun r hr => ?_)
    exact h r.nread (List.mem_map_of_mem hr)

/-- A chunk with a NUL in its line, and a chunk that fills the buffer. -/
def nulRound : Round := ⟨.chunk [97, nul, 98, newline] (by decide), []⟩

def fullRound : Round := ⟨.chunk (List.replicate (bufferSize + 1) 97) (by simp), [newline]⟩

/-- The line with the NUL is never pushed; the full chunk is pushed as a line that the stream
does not have. -/
theorem not_readFIFO_chunking :
    ¬ ReadsLines (streamOf [nulRound.nread]) (readFIFO [nulRound]) ∧
      ¬ ReadsLines (streamOf [fullRound.nread]) (readFIFO [fullRound]) := by
  rw [readsLines_iff, readsLines_iff]
  constructor
  · intro htext
    have hnul := @nul_not_mem_of_text [nulRound.nread] htext _ (List.mem_singleton_self _)
    exact hnul (by decide)
  · intro htext
    have hnul : ∀ r ∈ [fullRound.nread], nul ∉ r.bytes := by
      simp [fullRound, Nread.bytes, List.mem_replicate, nul]
    have hclean := clean_of_text hnul htext _ (List.mem_singleton_self _)
    simpa [fullRound, Nread.bytes] using hclean.2

end ModelRead
