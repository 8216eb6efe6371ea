import Logtail.Startup

/-!
# The record across a restart

What `write_checkpoint` has written is what `getcheckpoint`, `reload` and
`openLogFile` find again. The file is truncated and then written in place: a crash
between the two leaves a piece of the record, which names no path, and the start
goes to the end of the log file.
-/

namespace ModelRead

open Framing FileStream ScribeSend Checkpoint Transitions

/-- The names under which the record is written and read. -/
def writtenName (modelname : Bytes) : Bytes :=
  ascii "checkpoint" ++ ascii "/" ++ modelname ++ ascii ".checkpoint"

def readName (modelname : Bytes) : Bytes :=
  ascii "checkpoint/" ++ modelname ++ ascii ".checkpoint"

theorem readName_eq (modelname : Bytes) : readName modelname = writtenName modelname := rfl

/-- A completed call of `write_checkpoint`: both of its steps, and what other
processes do in between. -/
def writeActs (ans ans' : Answer) (between : List Fs) : List Act :=
  .thread ans :: (between.map .external ++ [.thread ans'])

section

variable {m : Config} {s : State} {ans : Answer}

theorem external_run (between : List Fs) (s : State) :
    ∃ fs, run (step m) s (between.map .external) = { s with fs := fs } := by
  induction between generalizing s with
  | nil => exact ⟨s.fs, rfl⟩
  | cons fs between ih =>
    obtain ⟨fs', hrun⟩ := ih { s with fs := fs }
    exact ⟨fs', hrun⟩

theorem run_writeActs (hpc : s.pc = .writeCheckpoint .timing)
    (due : (ans.clock - m.now).tmod m.checkpointTime = 0) (writable : ans.writable) (ans' : Answer)
    (between : List Fs) :
    (run (step m) s (writeActs ans ans' between)).checkpoint =
      some (checkpointLine ans.clock s.position m.path) := by
  obtain ⟨fs, hrun⟩ := external_run (m := m) between (step m s (.thread ans))
  rw [writeActs, run_cons, run_append, hrun, step, thread_writeCheckpoint m ans hpc,
    writeCheckpoint, if_pos ⟨due, writable⟩]
  rfl

end

/-- `openLogFile` cuts the position down to the end of the file. -/
theorem openLogFile_reload {fs : Fs} {ino : Nat} (hfile : fs.path = some ino) (position : Int) :
    openLogFile fs true position =
      some (min position (fs.file ino).length, ⟨ino, (fs.file ino).length⟩) := by
  simp only [openLogFile, hfile, Option.map_some, if_true]
  congr 2
  split <;> omega

/-- For every time, every 64-bit position and every path without a newline: when
`write_checkpoint` has completed a write, `getcheckpoint` finds its three fields under
the name of the model; `reload` takes the position over exactly for a model with the
written path; and `openLogFile` starts there or at the end of a shorter file. -/
theorem checkpoint_roundTrip (m : Config) (path : newline ∉ m.path) (s : State)
    (hpc : s.pc = .writeCheckpoint .timing) (lo : -2 ^ 63 ≤ s.position) (hi : s.position < 2 ^ 63)
    (ans ans' : Answer) (due : (ans.clock - m.now).tmod m.checkpointTime = 0)
    (writable : ans.writable) (between : List Fs) (modelname : Bytes)
    (directory : Bytes → Option Bytes) :
    ∃ map, getcheckpoint (Function.update directory (writtenName modelname)
        (run (step m) s (writeActs ans ans' between)).checkpoint (readName modelname)) = some map ∧
      map = ⟨Decimal.print ans.clock, Decimal.print s.position, m.path⟩ ∧
      (∀ (q : Config) (garbage position : Int), q.path = m.path →
        reload q garbage map position = (true, s.position) ∧
        ∀ fs start oStat, openLogFile fs (reload q garbage map position).1
            (reload q garbage map position).2 = some (start, oStat) →
          ∃ ino, fs.path = some ino ∧ start = min s.position (fs.file ino).length) ∧
      (∀ (q : Config) (garbage position : Int), q.path ≠ m.path →
        reload q garbage map position = (false, position)) := by
  have hmap := getcheckpoint_checkpointLine ans.clock s.position m.path
  rw [upTo_of_not_mem path] at hmap
  have hread : stringToInt (Decimal.print s.position) = some s.position := by
    rw [stringToInt_print, clamp_of_bounds lo hi]
  refine ⟨_, ?_, rfl, ?_, ?_⟩
  · rw [readName_eq, Function.update_self, run_writeActs hpc due writable, hmap]
  · intro q garbage position hq
    have hreload : reload q garbage ⟨Decimal.print ans.clock, Decimal.print s.position, m.path⟩
        position = (true, s.position) := by
      simp only [reload, hread, Option.getD_some, hq, if_true]
    refine ⟨hreload, ?_⟩
    intro fs start oStat hopen
    rw [hreload] at hopen
    cases hfile : fs.path with
    | none =>
      rw [openLogFile, hfile] at hopen
      cases hopen
    | some ino =>
      rw [openLogFile_reload hfile] at hopen
      exact ⟨ino, rfl, (Prod.mk.inj (Option.some.inj hopen)).1.symm⟩
  · intro q garbage position hq
    simp only [reload, if_neg hq]

/-- At the end of the poll of a file of two bytes. -/
theorem checkpoint_roundTrip_twoBytes :
    ∃ map, getcheckpoint (Function.update (fun _ => none) (writtenName [97])
        (run (step (shortModel .cxx11))
          ((started (oneFile 7 [97, newline]) none 2 ⟨7, 2⟩ true).goto (.writeCheckpoint .timing))
          (writeActs (allWell 5) (allWell 5) [])).checkpoint (readName [97])) = some map ∧
      map = ⟨Decimal.print 5, Decimal.print 2, [112]⟩ := by
  obtain ⟨map, hmap, heq, -⟩ := checkpoint_roundTrip (shortModel .cxx11) (by decide)
    ((started (oneFile 7 [97, newline]) none 2 ⟨7, 2⟩ true).goto (.writeCheckpoint .timing)) rfl
    (by decide) (by decide) (allWell 5) (allWell 5) (by decide) rfl [] [97] (fun _ => none)
  exact ⟨map, hmap, heq⟩

/-- Where `write_checkpoint` is cut off: before the open, or after the truncating open
when this many bytes of the record have reached the file. -/
inductive CrashPoint where
  | beforeOpen
  | written (k : Nat)

/-- The checkpoint file that the crash leaves. -/
def CrashPoint.file (old record : Bytes) : CrashPoint → Option Bytes
  | .beforeOpen => some old
  | .written k => some (record.take k)

/-- The machine passes through these points. -/
theorem crashPoint_of_step {m : Config} {s : State} {old : Bytes}
    (hpc : s.pc = .writeCheckpoint .timing) (hold : s.checkpoint = some old) (ans ans' : Answer) :
    (∃ point, (thread m ans s).checkpoint =
      CrashPoint.file old (checkpointLine ans.clock s.position m.path) point) ∧
    ∃ point, (thread m ans' (thread m ans s)).checkpoint =
      CrashPoint.file old (checkpointLine ans.clock s.position m.path) point := by
  rw [thread_writeCheckpoint m ans hpc]
  simp only [writeCheckpoint]
  split
  · refine ⟨⟨.written 0, rfl⟩, .written (checkpointLine ans.clock s.position m.path).length, ?_⟩
    rw [thread_writeCheckpoint m ans' rfl, CrashPoint.file, List.take_length]
    rfl
  · refine ⟨⟨.beforeOpen, hold⟩, .beforeOpen, ?_⟩
    rw [thread_readLogFile m ans' rfl]
    exact hold

/-- What a piece of the record is: a piece of the time, the time and a piece of the
position, or both and a piece of the path. -/
theorem take_checkpointLine (tTime position : Int) (path : Bytes) (k : Nat) :
    (k ≤ (Decimal.print tTime).length ∧
      (checkpointLine tTime position path).take k = (Decimal.print tTime).take k) ∨
    (∃ j ≤ (Decimal.print position).length, k = (Decimal.print tTime).length + 1 + j ∧
      (checkpointLine tTime position path).take k =
        Decimal.print tTime ++ space :: (Decimal.print position).take j) ∨
    ∃ j, k = (Decimal.print tTime).length + (Decimal.print position).length + 2 + j ∧
      (checkpointLine tTime position path).take k =
        checkpointLine tTime position (path.take j) := by
  by_cases hk : k ≤ (Decimal.print tTime).length
  · exact Or.inl ⟨hk, List.take_append_of_le_length hk⟩
  · obtain ⟨j, rfl⟩ : ∃ j, k = (Decimal.print tTime).length + 1 + j :=
      ⟨k - (Decimal.print tTime).length - 1, by omega⟩
    have htime : (checkpointLine tTime position path).take ((Decimal.print tTime).length + 1 + j) =
        Decimal.print tTime ++ space :: (Decimal.print position ++ space :: path).take j := by
      rw [checkpointLine, Nat.add_assoc, List.take_length_add_append, Nat.add_comm 1 j,
        List.take_succ_cons]
    by_cases hj : j ≤ (Decimal.print position).length
    · refine Or.inr (Or.inl ⟨j, hj, rfl, ?_⟩)
      rw [htime, List.take_append_of_le_length hj]
    · obtain ⟨i, rfl⟩ : ∃ i, j = (Decimal.print position).length + 1 + i :=
        ⟨j - (Decimal.print position).length - 1, by omega⟩
      refine Or.inr (Or.inr ⟨i, by omega, ?_⟩)
      rw [htime, Nat.add_assoc (Decimal.print position).length, List.take_length_add_append,
        Nat.add_comm 1 i, List.take_succ_cons]
      rfl

/-- `find_first_of` and the 0 that `npos + 1` is: a single word is all three fields. -/
theorem getcheckpoint_word {w : Bytes} (hspace : space ∉ w) (hline : newline ∉ w) :
    getcheckpoint (some w) = some ⟨w, w, w⟩ := by
  have hbeyond : beyond space w = w := by simp [beyond, (cut_eq_none_iff space w).mpr hspace]
  simp only [getcheckpoint, Option.map_some, upTo_of_not_mem hline, hbeyond, upTo_of_not_mem hspace]

theorem getcheckpoint_twoWords {v w : Bytes} (hspace : space ∉ v) (hline : newline ∉ v)
    (hspace' : space ∉ w) (hline' : newline ∉ w) :
    getcheckpoint (some (v ++ space :: w)) = some ⟨v, w, w⟩ := by
  have hnot : newline ∉ v ++ space :: w := by
    simp [hline, hline', show newline ≠ space by decide]
  have hbeyond : beyond space w = w := by simp [beyond, (cut_eq_none_iff space w).mpr hspace']
  simp only [getcheckpoint, Option.map_some, upTo_of_not_mem hnot, beyond_append hspace, hbeyond,
    upTo_append hspace, upTo_of_not_mem hspace']

theorem not_mem_take_print {b : UInt8} (hb : Decimal.isDigit b = false) (hm : b ≠ Decimal.minus)
    (z : Int) (k : Nat) : b ∉ (Decimal.print z).take k :=
  fun h => Decimal.not_mem_print hb hm z (List.mem_of_mem_take h)

/-- The start with `-r` goes on at one of the two positions, each cut down to the size
of the file. -/
def Resumes (m : Config) (garbage position : Int) (fs : Fs) (file : Option Bytes) (connected : Bool)
    (size previous next : Int) : Prop :=
  ∃ s, restart m garbage position fs file connected = some s ∧
    (s.position = min previous size ∨ s.position = min next size)

section

variable {m : Config} {garbage position : Int} {fs : Fs} {file : Option Bytes} {connected : Bool}
  {ino : Nat} {previous next : Int}

theorem resumes_iff {map : CheckpointMap} (hmap : getcheckpoint file = some map)
    (hfile : fs.path = some ino) :
    Resumes m garbage position fs file connected (fs.file ino).length previous next ↔
      if m.path = map.checkPath then
        min ((stringToInt map.checkPosition).getD garbage) (fs.file ino).length =
            min previous (fs.file ino).length ∨
          min ((stringToInt map.checkPosition).getD garbage) (fs.file ino).length =
            min next (fs.file ino).length
      else (fs.file ino).length ≤ previous ∨ (fs.file ino).length ≤ next := by
  split
  · rename_i hpath
    have hrestart : restart m garbage position fs file connected =
        some (started fs file
          (min ((stringToInt map.checkPosition).getD garbage) (fs.file ino).length)
          ⟨ino, (fs.file ino).length⟩ connected) := by
      simp only [restart, hmap, reload, if_pos hpath, Option.bind_eq_bind, Option.bind_some,
        openLogFile_reload hfile]
      rfl
    simp only [Resumes, hrestart, Option.some.injEq, exists_eq_left', started]
  · rename_i hpath
    have hrestart : restart m garbage position fs file connected =
        some (started fs file (fs.file ino).length ⟨ino, (fs.file ino).length⟩ connected) := by
      simp only [restart, hmap, reload, if_neg hpath, Option.bind_eq_bind, Option.bind_some,
        openLogFile, hfile, Option.map_some]
      rfl
    simp only [Resumes, hrestart, Option.some.injEq, exists_eq_left', started]
    omega

end

/-- The path is itself the piece of a number at whose end the record is cut off. -/
def CutAtPath (path : Bytes) (tTime position : Int) (k : Nat) : Prop :=
  (k ≤ (Decimal.print tTime).length ∧ path = (Decimal.print tTime).take k) ∨
    ∃ j ≤ (Decimal.print position).length, k = (Decimal.print tTime).length + 1 + j ∧
      path = (Decimal.print position).take j

/-- When a crash keeps the position. Either the record of this path is whole; or the log file
ends at one of the positions anyway; or the piece of a number that is taken for the path is
one of the positions, too. -/
def Recoverable (path previousPath : Bytes) (size previous tTime next : Int) : CrashPoint → Prop
  | .beforeOpen => upTo newline previousPath = path ∨ size ≤ previous ∨ size ≤ next
  | .written k =>
    ((checkpointLine tTime next path).length ≤ k ∧ newline ∉ path) ∨
    (CutAtPath path tTime next k ∧ ∃ p, stringToInt path = some p ∧
      (min p size = min previous size ∨ min p size = min next size)) ∨
    (¬ CutAtPath path tTime next k ∧ (size ≤ previous ∨ size ≤ next))

theorem isSpace_eq_false_of_mem_print {z : Int} {b : UInt8} (h : b ∈ Decimal.print z) :
    isSpace b = false := by
  rcases Decimal.digit_or_minus_of_mem_print h with hdigit | rfl
  · simp only [Decimal.isDigit, Bool.and_eq_true, decide_eq_true_eq] at hdigit
    simp only [isSpace, Bool.or_eq_false_iff, Bool.and_eq_false_iff, decide_eq_false_iff_not,
      beq_eq_false_iff_ne]
    refine ⟨?_, Or.inr (by omega)⟩
    rintro rfl
    exact absurd hdigit (by decide)
  · decide

/-- A piece of a numeral is not blank, so something is assigned. -/
theorem stringToInt_take_print {z : Int} {k : Nat} (h : (Decimal.print z).take k ≠ []) :
    ∃ p, stringToInt ((Decimal.print z).take k) = some p := by
  obtain ⟨b, rest, hb⟩ := List.exists_cons_of_ne_nil h
  have hmem : b ∈ Decimal.print z := List.mem_of_mem_take (hb ▸ List.mem_cons_self)
  rw [hb, stringToInt, List.dropWhile_cons_of_neg (by simp [isSpace_eq_false_of_mem_print hmem])]
  exact ⟨_, rfl⟩

theorem upTo_newline_eq_self_iff {path : Bytes} {j : Nat} :
    path = upTo newline (path.take j) ↔ path.length ≤ j ∧ newline ∉ path := by
  constructor
  · intro h
    rcases cut_cases newline (path.take j) with hnot | ⟨w, rest, htake, hw⟩
    · rw [upTo_of_not_mem hnot] at h
      have hle : path.length ≤ j := by
        have hlen := congrArg List.length h
        rw [List.length_take] at hlen
        omega
      exact ⟨hle, by rwa [← h] at hnot⟩
    · rw [htake, upTo_append hw] at h
      have hlen := congrArg List.length htake
      rw [List.length_take, List.length_append, List.length_cons, ← h] at hlen
      omega
  · rintro ⟨hle, hnot⟩
    rw [List.take_of_length_le hle, upTo_of_not_mem hnot]

/-- A piece that ends inside a number. -/
theorem recoverable_piece {path previousPath w : Bytes} {size previous tTime next garbage : Int}
    {k : Nat} (hcut : CutAtPath path tTime next k ↔ path = w)
    (torn : k < (checkpointLine tTime next path).length)
    (hsome : path = w → ∃ p, stringToInt w = some p) :
    (if path = w then
        min ((stringToInt w).getD garbage) size = min previous size ∨
          min ((stringToInt w).getD garbage) size = min next size
      else size ≤ previous ∨ size ≤ next) ↔
      Recoverable path previousPath size previous tTime next (.written k) := by
  have hwhole : ¬ (checkpointLine tTime next path).length ≤ k := not_le.mpr torn
  simp only [Recoverable, hwhole, false_and, false_or, hcut]
  split
  · rename_i hpath
    obtain ⟨p, hp⟩ := hsome hpath
    simp [hpath, hp]
  · rename_i hpath
    simp [hpath]

theorem newline_not_mem_print (z : Int) : newline ∉ Decimal.print z :=
  Decimal.not_mem_print (by decide) (by decide) z

theorem length_checkpointLine (tTime position : Int) (path : Bytes) :
    (checkpointLine tTime position path).length =
      (Decimal.print tTime).length + (Decimal.print position).length + 2 + path.length := by
  simp only [checkpointLine, List.length_append, List.length_cons]
  omega

section

variable {m : Config} {garbage position : Int} {fs : Fs} {connected : Bool} {ino : Nat}
  {previous next : Int} {previousPath : Bytes}

/-- The previous record is still there. -/
theorem resumes_beforeOpen (hfile : fs.path = some ino)
    (hprevious : stringToInt (Decimal.print previous) = some previous) (previousTime tTime : Int) :
    Resumes m garbage position fs (some (checkpointLine previousTime previous previousPath))
        connected (fs.file ino).length previous next ↔
      Recoverable m.path previousPath (fs.file ino).length previous tTime next .beforeOpen := by
  rw [resumes_iff (getcheckpoint_checkpointLine _ _ _) hfile, hprevious]
  simp only [Recoverable, Option.getD_some, true_or]
  by_cases hpath : m.path = upTo newline previousPath
  · simp [hpath]
  · simp [hpath, Ne.symm hpath]

/-- The record ends inside its time. -/
theorem resumes_timePiece (named : m.path ≠ []) (hfile : fs.path = some ino) {tTime : Int} {k : Nat}
    (hk : k ≤ (Decimal.print tTime).length) :
    Resumes m garbage position fs (some ((Decimal.print tTime).take k)) connected
        (fs.file ino).length previous next ↔
      Recoverable m.path previousPath (fs.file ino).length previous tTime next (.written k) := by
  have hmap := getcheckpoint_word (not_mem_take_print (by decide) (by decide) tTime k)
    (not_mem_take_print (by decide) (by decide) tTime k)
  have hlen := length_checkpointLine tTime next m.path
  have hcut : CutAtPath m.path tTime next k ↔ m.path = (Decimal.print tTime).take k := by
    refine ⟨?_, fun h => Or.inl ⟨hk, h⟩⟩
    rintro (⟨-, h⟩ | ⟨i, -, hki, -⟩)
    · exact h
    · omega
  rw [resumes_iff hmap hfile]
  refine recoverable_piece hcut (by omega) fun h => ?_
  rw [h] at named
  exact stringToInt_take_print named

/-- The record ends inside its position. -/
theorem resumes_positionPiece (named : m.path ≠ []) (hfile : fs.path = some ino) (tTime : Int)
    {j : Nat} (hj : j ≤ (Decimal.print next).length) :
    Resumes m garbage position fs
        (some (Decimal.print tTime ++ space :: (Decimal.print next).take j)) connected
        (fs.file ino).length previous next ↔
      Recoverable m.path previousPath (fs.file ino).length previous tTime next
        (.written ((Decimal.print tTime).length + 1 + j)) := by
  have hmap := getcheckpoint_twoWords (space_not_mem_print tTime) (newline_not_mem_print tTime)
    (not_mem_take_print (by decide) (by decide) next j)
    (not_mem_take_print (by decide) (by decide) next j)
  have hlen := length_checkpointLine tTime next m.path
  have hcut : CutAtPath m.path tTime next ((Decimal.print tTime).length + 1 + j) ↔
      m.path = (Decimal.print next).take j := by
    refine ⟨?_, fun h => Or.inr ⟨j, hj, rfl, h⟩⟩
    rintro (⟨hle, -⟩ | ⟨i, -, hji, h⟩)
    · omega
    · obtain rfl : j = i := by omega
      exact h
  rw [resumes_iff hmap hfile]
  refine recoverable_piece hcut (by omega) fun h => ?_
  rw [h] at named
  exact stringToInt_take_print named

/-- Both numbers are whole, and the path may be cut off. -/
theorem resumes_pathPiece (hfile : fs.path = some ino)
    (hnext : stringToInt (Decimal.print next) = some next) (tTime : Int) (j : Nat) :
    Resumes m garbage position fs (some (checkpointLine tTime next (m.path.take j))) connected
        (fs.file ino).length previous next ↔
      Recoverable m.path previousPath (fs.file ino).length previous tTime next
        (.written ((Decimal.print tTime).length + (Decimal.print next).length + 2 + j)) := by
  have hcut : ¬ CutAtPath m.path tTime next
      ((Decimal.print tTime).length + (Decimal.print next).length + 2 + j) := by
    rintro (⟨hk, -⟩ | ⟨i, hi, hk, -⟩)
    · omega
    · omega
  have hwhole : (checkpointLine tTime next m.path).length ≤
      (Decimal.print tTime).length + (Decimal.print next).length + 2 + j ↔ m.path.length ≤ j := by
    rw [length_checkpointLine]
    omega
  rw [resumes_iff (getcheckpoint_checkpointLine _ _ _) hfile, Recoverable, hnext, hwhole]
  simp only [hcut, false_and, not_false_iff, true_and, false_or, Option.getD_some, or_true,
    upTo_newline_eq_self_iff]
  split
  · rename_i hread
    simp [hread]
  · rename_i hread
    simp [hread]

end

/-- For every previous record, every new time, position and path and every crash point:
the start goes on at the previous or the new position exactly when the crash is
recoverable. Under an empty path there would be no log file to open. -/
theorem resumes_iff_recoverable (m : Config) (named : m.path ≠ []) (previousTime tTime : Int)
    {previous next : Int} (previous_lo : -2 ^ 63 ≤ previous) (previous_hi : previous < 2 ^ 63)
    (next_lo : -2 ^ 63 ≤ next) (next_hi : next < 2 ^ 63) (previousPath : Bytes) {fs : Fs}
    {ino : Nat} (hfile : fs.path = some ino) (garbage position : Int) (connected : Bool)
    (point : CrashPoint) :
    Resumes m garbage position fs
        (point.file (checkpointLine previousTime previous previousPath)
          (checkpointLine tTime next m.path)) connected (fs.file ino).length previous next ↔
      Recoverable m.path previousPath (fs.file ino).length previous tTime next point := by
  have hprevious : stringToInt (Decimal.print previous) = some previous := by
    rw [stringToInt_print, clamp_of_bounds previous_lo previous_hi]
  have hnext : stringToInt (Decimal.print next) = some next := by
    rw [stringToInt_print, clamp_of_bounds next_lo next_hi]
  cases point with
  | beforeOpen => exact resumes_beforeOpen hfile hprevious previousTime tTime
  | written k =>
    rw [CrashPoint.file]
    rcases take_checkpointLine tTime next m.path k with ⟨hk, htake⟩ | ⟨j, hj, rfl, htake⟩ |
      ⟨j, rfl, htake⟩
    · rw [htake]
      exact resumes_timePiece named hfile hk
    · rw [htake]
      exact resumes_positionPiece named hfile tTime hj
    · rw [htake]
      exact resumes_pathPiece hfile hnext tTime j

/-- The record is whole, and the file has grown past both positions. -/
theorem resumes_wholeRecord :
    Resumes (shortModel .cxx11) 0 0 (oneFile 7 [97, newline, 98, newline])
      (CrashPoint.file (checkpointLine 0 0 [112]) (checkpointLine 5 2 [112]) (.written 5)) true 4 0
      2 := by
  have zero : (-2 ^ 63 : Int) ≤ 0 ∧ (0 : Int) < 2 ^ 63 := by decide
  have two : (-2 ^ 63 : Int) ≤ 2 ∧ (2 : Int) < 2 ^ 63 := by decide
  have hfile : (oneFile 7 [97, newline, 98, newline]).path = some 7 := rfl
  refine (resumes_iff_recoverable (shortModel .cxx11) (by decide) 0 5 zero.1 zero.2 two.1 two.2
    [112] hfile 0 0 true (.written 5)).mpr ?_
  exact Or.inl ⟨by decide, by decide⟩

/-- The crash comes behind the truncating open: the start goes to the end, and the two lines
in front of it are not sent. -/
theorem not_resumes_truncated :
    ¬ Resumes (shortModel .cxx11) 0 0 (oneFile 7 [97, newline, 98, newline])
      (CrashPoint.file (checkpointLine 0 0 [112]) (checkpointLine 5 2 [112]) (.written 0)) true 4 0
      2 := by
  rintro ⟨s, hs, hposition⟩
  have hrestart : restart (shortModel .cxx11) 0 0 (oneFile 7 [97, newline, 98, newline]) (some [])
      true = some (started (oneFile 7 [97, newline, 98, newline]) (some []) 4 ⟨7, 4⟩ true) := rfl
  obtain rfl := Option.some.inj (hrestart.symm.trans hs)
  exact absurd hposition (by decide)

end ModelRead
