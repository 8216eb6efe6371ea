import Logtail.BatchLedger
import Logtail.Startup

/-!
# The checkpoint against the acknowledged lines

What a crash would find in the checkpoint file, in every state between two steps, and
where a start with `-r` would go on from there. `write_checkpoint` runs before the batch
is sent, and it empties the file before it writes: a start that finds it empty goes to
the end of the log file. Both are safe exactly when nothing is unsent at these moments.
-/

namespace ModelRead

open Framing FileStream ScribeSend Checkpoint Transitions

/-- Every line from `start` up to the offset `p` is in an acknowledged batch. -/
def AckedTo (m : Config) (ino start : Nat) (s : State) (p : Int) : Prop :=
  ∃ n, ((records newline ((s.fs.file ino).drop start)).take n).map (liveEntry m) <+:
      s.acked.flatten ∧
    p ≤ start + extent ((records newline ((s.fs.file ino).drop start)).take n)

/-- A crash in this state loses nothing: the position in the record is covered by
acknowledged lines, and so is the one from which a start with `-r` goes on. -/
structure CrashSafe (m : Config) (ino start : Nat) (s : State) : Prop where
  stored : ∀ p, ReadsBack s.checkpoint p → AckedTo m ino start s p
  restarted : ∀ (garbage position : Int) (connected : Bool) (s' : State),
    restart m garbage position s.fs s.checkpoint connected = some s' →
      AckedTo m ino start s s'.position

/-- The step opens the checkpoint file for writing, which empties it. -/
def Truncates (m : Config) (s : State) (ans : Answer) : Prop :=
  s.pc = .writeCheckpoint .timing ∧
    (ans.clock - m.now).tmod m.checkpointTime = 0 ∧ ans.writable

/-- Whenever the record is opened for writing, everything in the log file is sent; and
nothing is appended while the record gives no position. -/
def RewrittenSafely (m : Config) (ino : Nat) (s : State) : Act → Prop
  | .external fs => Dangling m s.checkpoint → fs.file ino = s.fs.file ino
  | .thread ans => Truncates m s ans →
    s.scribeInter.messages = [] ∧ s.position = (s.fs.file ino).length

/-- The record under construction holds the position that was last read back. -/
def WritesPosition (m : Config) (s : State) : Prop :=
  ∀ tTime writeInfo, s.pc = .writeCheckpoint (.writing tTime writeInfo) →
    writeInfo = checkpointLine tTime s.position m.path

/-- Between the truncation and the write the checkpoint file is empty. -/
def Truncated (s : State) : Prop :=
  ∀ tTime writeInfo, s.pc = .writeCheckpoint (.writing tTime writeInfo) → s.checkpoint = some []

section

variable {m m' : Config} {ino start : Nat} {s s' : State}

theorem AckedTo.mono {p q : Int} (h : AckedTo m ino start s p) (hle : q ≤ p) :
    AckedTo m ino start s q := by
  obtain ⟨n, hinitial, hp⟩ := h
  exact ⟨n, hinitial, hle.trans hp⟩

/-- Acknowledged lines stay acknowledged when the file grows. -/
theorem ackedTo_mono {p : Int} (h : AckedTo m ino start s p)
    (hlines : records newline ((s.fs.file ino).drop start) <+:
      records newline ((s'.fs.file ino).drop start))
    (hacked : s.acked.flatten <+: s'.acked.flatten) : AckedTo m ino start s' p := by
  obtain ⟨n, hinitial, hp⟩ := h
  obtain ⟨more, hmore⟩ := hlines
  have htake : (records newline ((s'.fs.file ino).drop start)).take
      (min n (records newline ((s.fs.file ino).drop start)).length) =
        (records newline ((s.fs.file ino).drop start)).take n := by
    rw [← hmore, List.take_append_of_le_length (Nat.min_le_right _ _), ← List.take_eq_take_min]
  refine ⟨min n (records newline ((s.fs.file ino).drop start)).length, ?_, ?_⟩
  · rw [htake]
    exact hinitial.trans hacked
  · rw [htake]
    exact hp

theorem lines_prefix_step {ok : Bytes → Prop} {a : Act} (h : start ≤ (s.fs.file ino).length)
    (appends : Appends ok ino s a) :
    records newline ((s.fs.file ino).drop start) <+:
      records newline (((step m' s a).fs.file ino).drop start) := by
  cases a with
  | thread ans =>
    simp only [step, thread_fs]
    exact List.prefix_refl _
  | external fs =>
    obtain ⟨_, bytes, _, hfile⟩ := appends
    simp only [step, hfile]
    rw [List.drop_append_of_le_length h]
    exact records_isPrefix newline _ bytes

theorem ackedTo_step {ok : Bytes → Prop} {a : Act} {p : Int} (h : AckedTo m ino start s p)
    (hin : start ≤ (s.fs.file ino).length) (appends : Appends ok ino s a) :
    AckedTo m ino start (step m' s a) p :=
  ackedTo_mono h (lines_prefix_step hin appends) (acked_prefix_step m' s a)

/-- With an empty batch everything consumed has been acknowledged. -/
theorem Reading.ackedTo_position {consumed rest : Bytes}
    (h : Reading m [] ino start consumed rest s) (hbalanced : Balanced s)
    (hempty : s.scribeInter.messages = []) : AckedTo m ino start s s.position := by
  have hacked : s.acked.flatten = (records newline consumed).map (liveEntry m) := by
    have hpushed := (balanced_iff s).mp hbalanced
    rw [hempty, List.append_nil] at hpushed
    rw [← hpushed, h.pushed, List.nil_append]
  have htake : (records newline ((s.fs.file ino).drop start)).take
      (records newline consumed).length = records newline consumed := by
    rw [h.records_append, List.take_left]
  refine ⟨(records newline consumed).length, ?_, ?_⟩
  · simp only [htake, hacked, List.prefix_refl]
  · rw [htake, extent_of_terminated h.complete, h.position]

/-- With a pending message the position lies behind the acknowledged lines. -/
theorem Reading.not_ackedTo_position {consumed rest : Bytes}
    (h : Reading m [] ino start consumed rest s) (hbalanced : Balanced s)
    (hpending : s.scribeInter.messages ≠ []) : ¬ AckedTo m ino start s s.position := by
  rintro ⟨n, hinitial, hp⟩
  have hcount : s.acked.flatten.length < (records newline consumed).length := by
    have hpushed := congrArg List.length ((balanced_iff s).mp hbalanced)
    have hpos := List.length_pos_of_ne_nil hpending
    rw [h.pushed, List.nil_append, List.length_map, List.length_append] at hpushed
    omega
  have hlen := hinitial.length_le
  rw [h.records_append, List.length_map, List.length_take, List.length_append] at hlen
  have hn : n < (records newline consumed).length := by omega
  have hextent := extent_take_lt hn
  rw [extent_of_terminated h.complete] at hextent
  have hposition := h.position
  rw [h.records_append, List.take_append_of_le_length (by omega)] at hp
  omega

/-- Everything is acknowledged when the batch is empty and the file is read to its end. -/
theorem ackedTo_length_iff (h : Lined m ino start s) (hbalanced : Balanced s) :
    AckedTo m ino start s (s.fs.file ino).length ↔
      s.scribeInter.messages = [] ∧ s.position = (s.fs.file ino).length := by
  obtain ⟨⟨_, consumed, rest, hr⟩, _⟩ := h
  have hlen := hr.start_length
  have hposition := hr.position
  constructor
  · intro hacked
    have hempty : s.scribeInter.messages = [] := by
      by_contra hpending
      exact hr.not_ackedTo_position hbalanced hpending (hacked.mono hr.inFile.2)
    refine ⟨hempty, ?_⟩
    obtain ⟨n, hinitial, hp⟩ := hacked
    have hpushed := (balanced_iff s).mp hbalanced
    rw [hempty, List.append_nil, hr.pushed, List.nil_append] at hpushed
    rw [← hpushed, hr.records_append] at hinitial
    rw [hr.records_append] at hp
    -- the lines that are covered are among the consumed ones
    have hcount := hinitial.length_le
    rw [List.length_map, List.length_map] at hcount
    have hwithin : (records newline consumed ++ records newline rest).take n <+:
        records newline consumed :=
      List.prefix_of_prefix_length_le (List.take_prefix _ _) (List.prefix_append _ _) hcount
    obtain ⟨more, hmore⟩ := hwithin
    have hextent := extent_append ((records newline consumed ++ records newline rest).take n) more
    rw [hmore, extent_of_terminated hr.complete] at hextent
    omega
  · rintro ⟨hempty, hend⟩
    rw [← hend]
    exact hr.ackedTo_position hbalanced hempty

/-- What a crash leaves is safe when the record is, and one that gives no position only
at the end of the file. -/
theorem crashSafe_iff (hpath : s.fs.path = some ino) :
    CrashSafe m ino start s ↔
      (∀ p, ReadsBack s.checkpoint p → AckedTo m ino start s p) ∧
        (Dangling m s.checkpoint → AckedTo m ino start s (s.fs.file ino).length) := by
  constructor
  · rintro ⟨hstored, hrestarted⟩
    refine ⟨hstored, ?_⟩
    intro hdangling
    obtain ⟨s', hs', hposition⟩ := restart_of_dangling hpath hdangling true
    rw [← hposition]
    exact hrestarted _ _ _ s' hs'
  · rintro ⟨hstored, hdangling⟩
    refine ⟨hstored, ?_⟩
    intro garbage position connected s' hs'
    obtain ⟨hlen, hnone | ⟨p, hp, hle⟩⟩ := restart_position hpath hs'
    · exact (hdangling hnone).mono hlen
    · exact (hstored p (recordedPosition_readsBack hp)).mono hle

/-- At the start nothing is acknowledged. -/
theorem ackedTo_started {fs : Fs} {checkpoint : Option Bytes} {position p : Int} {oStat : Stat}
    {connected : Bool} :
    AckedTo m ino start (started fs checkpoint position oStat connected) p ↔ p ≤ start := by
  constructor
  · rintro ⟨n, hinitial, hp⟩
    have hnone := List.map_eq_nil_iff.mp (List.prefix_nil.mp hinitial)
    rw [hnone, extent_nil] at hp
    simpa using hp
  · intro hp
    refine ⟨0, List.nil_prefix, ?_⟩
    simpa using hp

/-- The invariant of the runs in which every record is opened for writing behind the last
line. -/
structure Guarding (m : Config) (ino start : Nat) (s : State) : Prop where
  lined : Lined m ino start s
  balanced : Balanced s
  writes : WritesPosition m s
  truncated : Truncated s
  safe : CrashSafe m ino start s

theorem Guarding.ackedTo_length (h : Guarding m ino start s) (hdangling : Dangling m s.checkpoint) :
    AckedTo m ino start s (s.fs.file ino).length :=
  ((crashSafe_iff h.lined.1.1).mp h.safe).2 hdangling

/-- The record is written behind the step that has emptied it only, at the same position. -/
theorem writing_thread {ans : Answer} {tTime : Int} {writeInfo : Bytes}
    (h : (thread m ans s).pc = .writeCheckpoint (.writing tTime writeInfo)) :
    writeInfo = checkpointLine tTime (thread m ans s).position m.path ∧
      (thread m ans s).checkpoint = some [] := by
  by_cases hw : ∃ place, s.pc = .writeCheckpoint place
  · obtain ⟨place, hp⟩ := hw
    rw [thread_writeCheckpoint m ans hp] at h ⊢
    cases place with
    | timing =>
      simp only [writeCheckpoint] at h ⊢
      split at h
      · rename_i hdue
        cases h
        rw [if_pos hdue]
        exact ⟨rfl, rfl⟩
      · cases h
    | writing tTime' writeInfo' => cases h
  · exact absurd h ((frame_thread m ans (not_exists.mp hw)).pc tTime writeInfo)

theorem writesPosition_step {a : Act} (h : WritesPosition m s) : WritesPosition m (step m s a) := by
  cases a with
  | external fs => exact h
  | thread ans => exact fun _ _ hwriting => (writing_thread hwriting).1

theorem truncated_step {a : Act} (h : Truncated s) : Truncated (step m s a) := by
  cases a with
  | external fs => exact h
  | thread ans => exact fun _ _ hwriting => (writing_thread hwriting).2

/-- The effect of `write_checkpoint` and of the other steps on the record. -/
theorem record_step (ans : Answer) (hwrites : WritesPosition m s) :
    (Truncates m s ans ∧ (thread m ans s).checkpoint = some []) ∨
      (∃ tTime writeInfo, s.pc = .writeCheckpoint (.writing tTime writeInfo) ∧
        (thread m ans s).checkpoint = some (checkpointLine tTime s.position m.path)) ∨
      ((¬ Truncates m s ans ∧
          ∀ tTime writeInfo, s.pc ≠ .writeCheckpoint (.writing tTime writeInfo)) ∧
        (thread m ans s).checkpoint = s.checkpoint) := by
  by_cases hw : ∃ place, s.pc = .writeCheckpoint place
  · obtain ⟨place, hp⟩ := hw
    rw [thread_writeCheckpoint m ans hp]
    cases place with
    | timing =>
      simp only [writeCheckpoint]
      split
      · rename_i hdue
        exact Or.inl ⟨⟨hp, hdue⟩, rfl⟩
      · rename_i hdue
        refine Or.inr (Or.inr ⟨⟨fun h => hdue h.2, ?_⟩, rfl⟩)
        intro tTime writeInfo hwriting
        rw [hp] at hwriting
        cases hwriting
    | writing tTime writeInfo =>
      refine Or.inr (Or.inl ⟨tTime, writeInfo, hp, ?_⟩)
      rw [← hwrites tTime writeInfo hp]
      rfl
  · refine Or.inr (Or.inr ⟨⟨fun h => hw ⟨_, h.1⟩, fun _ _ h => hw ⟨_, h⟩⟩, ?_⟩)
    exact (frame_thread m ans (not_exists.mp hw)).checkpoint

theorem crashSafe_step {a : Act} (h : Guarding m ino start s)
    (appends : Appends (Terminated newline) ino s a) (safely : RewrittenSafely m ino s a) :
    CrashSafe m ino start (step m s a) := by
  have hlined := lined_step h.lined appends
  obtain ⟨_, _, hr⟩ := h.lined.1.2
  have hkept : ∀ p, AckedTo m ino start s p → AckedTo m ino start (step m s a) p :=
    fun p hp => ackedTo_step hp hr.inside appends
  rw [crashSafe_iff hlined.1.1]
  cases a with
  | external fs =>
    refine ⟨fun p hp => hkept p (h.safe.stored p hp), ?_⟩
    intro hdangling
    have hsame : fs.file ino = s.fs.file ino := safely hdangling
    have hend := hkept _ (h.ackedTo_length hdangling)
    rw [← hsame] at hend
    exact hend
  | thread ans =>
    simp only [step, thread_fs] at hkept ⊢
    rcases record_step ans h.writes with ⟨htruncates, hrecord⟩ |
      ⟨tTime, writeInfo, hpc, hrecord⟩ | ⟨-, hrecord⟩
    · rw [hrecord]
      refine ⟨fun p hp => absurd hp (not_readsBack_truncated p), fun _ => hkept _ ?_⟩
      exact (ackedTo_length_iff h.lined h.balanced).mpr (safely htruncates)
    · have hempty := h.truncated tTime writeInfo hpc
      have hend := hkept _ (h.ackedTo_length (hempty ▸ dangling_truncated m))
      rw [hrecord]
      refine ⟨?_, fun _ => hend⟩
      intro p hp
      rw [(readsBack_checkpointLine_iff tTime s.position m.path p).mp hp]
      exact hend.mono ((clamp_le hr.inFile.1).trans hr.inFile.2)
    · rw [hrecord]
      exact ⟨fun p hp => hkept p (h.safe.stored p hp), fun hd => hkept _ (h.ackedTo_length hd)⟩

theorem guarding_step {a : Act} (h : Guarding m ino start s)
    (appends : Appends (Terminated newline) ino s a) (safely : RewrittenSafely m ino s a) :
    Guarding m ino start (step m s a) :=
  ⟨lined_step h.lined appends, balanced_step m h.balanced a, writesPosition_step h.writes,
    truncated_step h.truncated, crashSafe_step h appends safely⟩

/-- Behind an unsafe step a start goes to the end of the file, past lines that were not sent. -/
theorem not_crashSafe_of_unsafe {a : Act} (h : Guarding m ino start s)
    (appends : Appends (Terminated newline) ino s a) (unsafely : ¬ RewrittenSafely m ino s a) :
    ¬ CrashSafe m ino start (step m s a) := by
  intro hsafe
  have hlined := lined_step h.lined appends
  have hbalanced := balanced_step m h.balanced a
  obtain ⟨_, _, hr⟩ := h.lined.1.2
  have hend : Dangling m (step m s a).checkpoint → _ := fun hd =>
    (ackedTo_length_iff hlined hbalanced).mp (((crashSafe_iff hlined.1.1).mp hsafe).2 hd)
  cases a with
  | external fs =>
    simp only [RewrittenSafely, not_forall] at unsafely
    obtain ⟨hdangling, hchanged⟩ := unsafely
    obtain ⟨-, hposition⟩ := hend hdangling
    obtain ⟨_, bytes, _, hfile⟩ := appends
    have hbytes : bytes ≠ [] := by
      rintro rfl
      exact hchanged (by rw [hfile, List.append_nil])
    have hlen := List.length_pos_of_ne_nil hbytes
    have hinside := hr.inFile.2
    simp only [step, hfile, List.length_append] at hposition
    omega
  | thread ans =>
    simp only [RewrittenSafely, not_forall] at unsafely
    obtain ⟨⟨hpc, hdue⟩, hunsent⟩ := unsafely
    apply hunsent
    simp only [step, thread_writeCheckpoint m ans hpc, writeCheckpoint, if_pos hdue] at hend
    exact hend (dangling_truncated m)

end

/-- For every start, every run of whole-line appends, every sequence of server replies
and every clock: in every state what a crash leaves is safe, the position in the record
and the one from which a start with `-r` goes on, exactly when the record that was found
at the start is, the file is read to its end and sent whenever the record is opened for
writing, and nothing is appended while the record gives no position. -/
theorem crashSafe_iff_rewrittenSafely (m : Config) {fs : Fs} {ino start size : Nat}
    (opened : Opened fs ino start size) (lines : Terminated newline (fs.file ino))
    (checkpoint : Option Bytes) (connected : Bool) {acts : List Act}
    (appends : Guarded (step m) (Appends (Terminated newline) ino)
      (started fs checkpoint start ⟨ino, size⟩ connected) acts) :
    Always (step m) (CrashSafe m ino start)
        (started fs checkpoint start ⟨ino, size⟩ connected) acts ↔
      ((∀ p, ReadsBack checkpoint p → p ≤ start) ∧
        (Dangling m checkpoint → (fs.file ino).length ≤ start)) ∧
      Guarded (step m) (RewrittenSafely m ino)
        (started fs checkpoint start ⟨ino, size⟩ connected) acts := by
  have hfirst : CrashSafe m ino start (started fs checkpoint start ⟨ino, size⟩ connected) ↔
      (∀ p, ReadsBack checkpoint p → p ≤ start) ∧
        (Dangling m checkpoint → (fs.file ino).length ≤ start) := by
    rw [crashSafe_iff opened.path]
    simp only [ackedTo_started, Nat.cast_le]
    exact Iff.rfl
  have hrun : CrashSafe m ino start (started fs checkpoint start ⟨ino, size⟩ connected) →
      (Always (step m) (CrashSafe m ino start)
          (started fs checkpoint start ⟨ino, size⟩ connected) acts ↔
        Guarded (step m) (RewrittenSafely m ino)
          (started fs checkpoint start ⟨ino, size⟩ connected) acts) := by
    intro hsafe
    apply always_iff_guarded (I := Guarding m ino start) (R := Appends (Terminated newline) ino)
    · exact fun s h => h.safe
    · exact fun s a h hrule hsafely => guarding_step h hrule hsafely
    · exact fun s a h hrule hunsafely => not_crashSafe_of_unsafe h hrule hunsafely
    · exact ⟨lined_started m opened lines checkpoint connected, balanced_started _ _ _ _ _,
        nofun, nofun, hsafe⟩
    · exact appends
  constructor
  · intro halways
    exact ⟨hfirst.mp halways.first, (hrun halways.first).mp halways⟩
  · rintro ⟨hstart, hsafely⟩
    exact (hrun (hfirst.mpr hstart)).mpr hsafely

/-- A poll that finds nothing new writes a safe record, and a line comes behind it. -/
theorem crashSafe_idlePoll :
    Always (step (shortModel .cxx11)) (CrashSafe (shortModel .cxx11) 7 2)
      (started (oneFile 7 [97, newline]) (some (checkpointLine 0 1 [112])) 2 ⟨7, 2⟩ true)
      (List.replicate 7 (.thread (allWell 0)) ++
        [.external (oneFile 7 [97, newline, 98, newline])]) := by
  have opened : Opened (oneFile 7 [97, newline]) 7 2 2 := ⟨rfl, by decide, by decide⟩
  refine (crashSafe_iff_rewrittenSafely (shortModel .cxx11) opened (by decide) _ true ?_).mpr
    ⟨⟨?_, ?_⟩, ?_⟩
  · exact ⟨trivial, trivial, trivial, trivial, trivial, trivial, trivial,
      ⟨rfl, [98, newline], by decide, rfl⟩, trivial⟩
  · intro p hp
    rw [(readsBack_checkpointLine_iff 0 1 [112] p).mp hp]
    decide
  · rintro ⟨-, hnone⟩
    exact absurd hnone (by decide)
  · refine ⟨fun _ => ⟨rfl, rfl⟩, fun _ => ⟨rfl, rfl⟩, fun _ => ⟨rfl, rfl⟩, fun _ => ⟨rfl, rfl⟩,
      fun _ => ⟨rfl, rfl⟩, fun _ => ⟨rfl, rfl⟩, fun _ => ⟨rfl, rfl⟩, ?_, trivial⟩
    rintro ⟨-, hnone⟩
    exact absurd hnone (by decide)

/-- The record for the line `a` is written while the line waits to be sent. -/
theorem not_crashSafe_newLine :
    Guarded (step (shortModel .cxx11)) (Appends (Terminated newline) 7)
        (started (oneFile 7 [97, newline]) none 0 ⟨7, 2⟩ true)
        (List.replicate 8 (.thread (allWell 0))) ∧
      ReadsBack (run (step (shortModel .cxx11))
        (started (oneFile 7 [97, newline]) none 0 ⟨7, 2⟩ true)
        (List.replicate 8 (.thread (allWell 0)))).checkpoint 2 ∧
      (run (step (shortModel .cxx11)) (started (oneFile 7 [97, newline]) none 0 ⟨7, 2⟩ true)
        (List.replicate 8 (.thread (allWell 0)))).acked = [] ∧
      ¬ Always (step (shortModel .cxx11)) (CrashSafe (shortModel .cxx11) 7 0)
        (started (oneFile 7 [97, newline]) none 0 ⟨7, 2⟩ true)
        (List.replicate 8 (.thread (allWell 0))) := by
  have hstored : ReadsBack (run (step (shortModel .cxx11))
      (started (oneFile 7 [97, newline]) none 0 ⟨7, 2⟩ true)
      (List.replicate 8 (.thread (allWell 0)))).checkpoint 2 :=
    (readsBack_checkpointLine_iff 0 2 [112] 2).mpr (by decide)
  refine ⟨?_, hstored, by decide, ?_⟩
  · exact ⟨trivial, trivial, trivial, trivial, trivial, trivial, trivial, trivial, trivial⟩
  · rintro ⟨-, -, -, -, -, -, -, -, hlast⟩
    obtain ⟨n, hinitial, hp⟩ := hlast.stored 2 hstored
    have hlines : records newline [97, newline] = [[97]] := by decide
    replace hinitial :
        ((records newline [97, newline]).take n).map (liveEntry (shortModel .cxx11)) <+: [] :=
      hinitial
    replace hp : (2 : Int) ≤ (0 : Nat) + extent ((records newline [97, newline]).take n) := hp
    rw [hlines] at hinitial hp
    cases n with
    | zero => simp at hp
    | succ n => simp at hinitial

end ModelRead
