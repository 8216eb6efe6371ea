import Logtail.Tailing

/-!
# The read of the rotated file

What `read_backupfile` queues: the lines of the C string that starts at the
buffer. The buffer has no terminator, so the string ends at the first NUL of the
unread part or runs on into the memory behind it. Behind the read the thread
follows the new file from offset 0.
-/

namespace ModelRead

open Framing FileStream ScribeSend Transitions

/-- The memory behind a buffer that holds `unread`, up to the next NUL. -/
def behind (unread memory : Bytes) : Bytes := cString (memory.drop unread.length)

/-- When the splitting loop finds exactly the lines of `unread`: no NUL is in it,
and the memory behind it completes an unterminated last line and does nothing
else. -/
def CleanText (unread memory : Bytes) : Prop :=
  nul ∉ unread ∧
    ((Terminated newline unread ∧ newline ∉ behind unread memory) ∨
      (¬ Terminated newline unread ∧
        ∃ rest, behind unread memory = newline :: rest ∧ newline ∉ rest))

/-- A read of the backup file finds exactly the lines behind the position. -/
def CleanBackup (s : State) : Act → Prop
  | .external _ => True
  | .thread ans =>
    ∀ ino length, s.pc = .readBackupfile (.reading ino length) →
      CleanText ((s.fs.file ino).drop s.position.toNat) ans.memory

/-- The splitting loop finds the lines of the unread part in clean text only. -/
theorem records_cString_iff (unread memory : Bytes) :
    records newline (cString (unread ++ memory.drop unread.length)) = pieces newline unread ↔
      CleanText unread memory := by
  by_cases hnul : nul ∈ unread
  · -- a shorter text has too few bytes for the lines
    have hshort := cString_length_lt hnul (memory.drop unread.length)
    have hpieces := length_le_extent_pieces newline unread
    have hrecords := extent_records newline (cString (unread ++ memory.drop unread.length))
    constructor
    · intro h
      rw [h] at hrecords
      omega
    · rintro ⟨hno, -⟩
      exact absurd hnul hno
  · rw [cString_append hnul, records_append_eq_pieces_iff, CleanText]
    simp [hnul, behind]

theorem buffer_eq {content : Bytes} {pos : Nat} (h : pos ≤ content.length) (memory : Bytes) :
    buffer content memory pos (content.length - pos) =
      content.drop pos ++ memory.drop (content.drop pos).length := by
  have hlen : ((content.length : Int) - pos).toNat = (content.drop pos).length := by
    rw [List.length_drop]
    omega
  have hneg : ¬ (pos : Int) < 0 := by omega
  simp only [buffer, if_neg hneg, Int.toNat_natCast, hlen, List.take_length]

/-- The text that the line loop still has to split. -/
def unsplit : BackupPc → Option Bytes
  | .splitting lastmsg _ _ => some lastmsg
  | .sending lastmsg _ _ => some lastmsg
  | .reopening lastmsg _ _ => some lastmsg
  | .waiting lastmsg _ _ => some lastmsg
  | _ => none

/-- A poll has found that `path` leads to the inode `new`, and `backup_path` leads
to `old` with the content `O`. -/
structure Rotating (old new : Nat) (O : Bytes) (pos : Nat) (s : State) : Prop where
  backup : s.fs.backupPath = some old
  content : s.fs.file old = O
  inside : pos ≤ O.length
  position : s.position = pos
  stream : s.logreadfile = some (.opened new)
  same : s.nStat.stIno = new
  grown : s.nStat.stSize ≤ (s.fs.file new).length

/-- The places of `read_backupfile` up to the read, with the inode `old` of the
content `O` open. -/
inductive BeforeRead (old : Nat) (O : Bytes) (pos : Nat) : BackupPc → Prop where
  | opening : BeforeRead old O pos .opening
  | sizing : BeforeRead old O pos (.sizing old)
  | reading (more : pos < O.length) : BeforeRead old O pos (.reading old (O.length - pos))

structure Fetching (base : List LogEntry) (old new : Nat) (O : Bytes) (pos : Nat) (s : State) :
    Prop where
  rotating : Rotating old new O pos s
  pushed : s.pushed = base
  place : ∃ place, s.pc = .readBackupfile place ∧ BeforeRead old O pos place

/-- The line loop runs, or has ended: the lines queued and the lines of the text
left are together a list with the property `lines`. -/
structure Queueing (m : Config) (base : List LogEntry) (old new : Nat) (O : Bytes) (pos : Nat)
    (lines : List Bytes → Prop) (s : State) : Prop where
  rotating : Rotating old new O pos s
  queued : ∃ done lastmsg, lines (done ++ records newline lastmsg) ∧
    s.pushed = base ++ done.map (backupEntry m) ∧
    ((∃ place, s.pc = .readBackupfile place ∧ unsplit place = some lastmsg) ∨
      (s.pc = .stillGood .telling ∧ lastmsg = []))

/-- The rotation has been noticed and the read of the backup file is over. -/
def Rotated (m : Config) (base : List LogEntry) (old new : Nat) (O : Bytes) (pos : Nat)
    (lines : List Bytes → Prop) (s : State) : Prop :=
  Queueing m base old new O pos lines s ∨
    ∃ done, lines done ∧ Following m (base ++ done.map (backupEntry m)) new 0 s

/-- The poll is in `readLogFile` behind the call of `stillGood`. -/
def BehindChecks (s : State) : Prop :=
  (∃ place, s.pc = .readLogFile place) ∨ ∃ place, s.pc = .writeCheckpoint place

section

variable {m : Config} {base : List LogEntry} {old new : Nat} {O : Bytes} {pos : Nat}
  {lines : List Bytes → Prop} {s s' : State} {ans : Answer}

theorem Rotating.kept (h : Rotating old new O pos s) (hfs : s'.fs = s.fs)
    (hposition : s'.position = s.position) (hstream : s'.logreadfile = s.logreadfile)
    (hstat : s'.nStat = s.nStat) : Rotating old new O pos s' where
  backup := by rw [hfs]; exact h.backup
  content := by rw [hfs]; exact h.content
  inside := h.inside
  position := hposition.trans h.position
  stream := hstream.trans h.stream
  same := by rw [hstat]; exact h.same
  grown := by rw [hstat, hfs]; exact h.grown

theorem Queueing.mono {weaker : List Bytes → Prop} (h : Queueing m base old new O pos lines s)
    (imp : ∀ ws, lines ws → weaker ws) : Queueing m base old new O pos weaker s := by
  obtain ⟨done, lastmsg, hlines, hqueued⟩ := h.queued
  exact ⟨h.rotating, done, lastmsg, imp _ hlines, hqueued⟩

/-- Until the read nothing is queued; an empty unread part is not read at all. -/
theorem fetching_quiet (ans : Answer) (h : Fetching base old new O pos s)
    (hpc : ∀ ino length, s.pc ≠ .readBackupfile (.reading ino length)) :
    Fetching base old new O pos (thread m ans s) ∨
      (O.drop pos = [] ∧ Queueing m base old new O pos (· = []) (thread m ans s)) := by
  obtain ⟨place, hp, hbefore⟩ := h.place
  rw [thread_readBackupfile m ans hp]
  cases hbefore with
  | opening =>
    left
    simp only [readBackupfile, h.rotating.backup]
    exact ⟨h.rotating.kept rfl rfl rfl rfl, h.pushed, _, rfl, .sizing⟩
  | sizing =>
    have hin := h.rotating.inside
    simp only [readBackupfile, h.rotating.content, h.rotating.position]
    by_cases hmore : pos < O.length
    · left
      rw [if_pos (by omega)]
      exact ⟨h.rotating.kept rfl rfl rfl rfl, h.pushed, _, rfl, .reading hmore⟩
    · right
      rw [if_neg (by omega)]
      refine ⟨List.drop_eq_nil_of_le (by omega), h.rotating.kept rfl rfl rfl rfl, [], [], rfl, ?_,
        Or.inr ⟨rfl, rfl⟩⟩
      simpa using h.pushed
  | reading more => exact absurd hp (hpc _ _)

/-- The read itself. -/
theorem fetching_reading (h : Fetching base old new O pos s) {ino : Nat} {length : Int}
    (hpc : s.pc = .readBackupfile (.reading ino length)) :
    Queueing m base old new O pos
      (· = records newline (cString (O.drop pos ++ ans.memory.drop (O.drop pos).length)))
      (thread m ans s) := by
  obtain ⟨place, hp, hbefore⟩ := h.place
  obtain rfl : place = .reading ino length := by simpa [hpc] using hp.symm
  cases hbefore with
  | reading more =>
    rw [thread_readBackupfile m ans hpc]
    simp only [readBackupfile, h.rotating.content, h.rotating.position,
      buffer_eq h.rotating.inside ans.memory]
    refine ⟨h.rotating.kept rfl rfl rfl rfl, [], _, rfl, ?_, Or.inl ⟨_, rfl, rfl⟩⟩
    simpa using h.pushed

/-- The inode and the bytes that the read uses are those of the old file. -/
theorem Fetching.unread_eq (h : Fetching base old new O pos s) {ino : Nat} {length : Int}
    (hpc : s.pc = .readBackupfile (.reading ino length)) :
    (s.fs.file ino).drop s.position.toNat = O.drop pos := by
  obtain ⟨place, hp, hbefore⟩ := h.place
  obtain rfl : place = .reading ino length := by simpa [hpc] using hp.symm
  cases hbefore with
  | reading more => rw [h.rotating.content, h.rotating.position, Int.toNat_natCast]

/-- A read is attempted only where something is unread. -/
theorem Fetching.more (h : Fetching base old new O pos s) {ino : Nat} {length : Int}
    (hpc : s.pc = .readBackupfile (.reading ino length)) : O.drop pos ≠ [] := by
  obtain ⟨place, hp, hbefore⟩ := h.place
  obtain rfl : place = .reading ino length := by simpa [hpc] using hp.symm
  cases hbefore with
  | reading more =>
    intro hnil
    have := List.drop_eq_nil_iff.mp hnil
    omega

/-- One round of the line loop, a `send` in it, or a reconnect in it. -/
theorem queueing_unsplit (h : Queueing m base old new O pos lines s) {place : BackupPc}
    (hpc : s.pc = .readBackupfile place) :
    Queueing m base old new O pos lines (thread m ans s) := by
  obtain ⟨hrot, done, lastmsg, hlines, hpushed, ⟨place', hp, hun⟩ | ⟨hp, -⟩⟩ := h
  · obtain rfl : place = place' := by simpa [hpc] using hp
    rw [thread_readBackupfile m ans hpc]
    cases place with
    | opening => cases hun
    | sizing ino => cases hun
    | reading ino length => cases hun
    | splitting text tM allNum =>
      obtain rfl : text = lastmsg := Option.some.inj hun
      cases hcut : cut newline text with
      | none =>
        have hnone := (cut_eq_none_iff newline text).mp hcut
        simp only [readBackupfile, hcut]
        refine ⟨hrot.kept rfl rfl rfl rfl, done, [], ?_, hpushed, Or.inr ⟨rfl, rfl⟩⟩
        rwa [records_of_not_mem hnone] at hlines
      | some p =>
        obtain ⟨line, rest⟩ := p
        obtain ⟨rfl, hline⟩ := (cut_eq_some_iff newline text line rest).mp hcut
        have hq : (s.queue (backupEntry m line)).pushed =
            base ++ (done ++ [line]).map (backupEntry m) := by
          rw [State.pushed_queue, hpushed]
          simp
        have hl : lines ((done ++ [line]) ++ records newline rest) := by
          rw [records_record hline] at hlines
          simpa using hlines
        simp only [readBackupfile, hcut]
        split
        · exact ⟨hrot.kept rfl rfl rfl rfl, _, rest, hl, hq, Or.inl ⟨_, rfl, rfl⟩⟩
        · exact ⟨hrot.kept rfl rfl rfl rfl, _, rest, hl, hq, Or.inl ⟨_, rfl, rfl⟩⟩
    | sending text tM allNum =>
      simp only [readBackupfile]
      split
      · exact ⟨hrot.kept rfl rfl rfl rfl, done, lastmsg, hlines, by simpa using hpushed,
          Or.inl ⟨_, rfl, hun⟩⟩
      · exact ⟨hrot.kept rfl rfl rfl rfl, done, lastmsg, hlines, by simpa using hpushed,
          Or.inl ⟨_, rfl, hun⟩⟩
    | reopening text tM allNum =>
      exact ⟨hrot.kept rfl rfl rfl rfl, done, lastmsg, hlines,
        by simpa [readBackupfile] using hpushed, Or.inl ⟨_, rfl, hun⟩⟩
    | waiting text tM allNum =>
      simp only [readBackupfile]
      split
      · exact ⟨hrot.kept rfl rfl rfl rfl, done, lastmsg, hlines, hpushed, Or.inl ⟨_, rfl, hun⟩⟩
      · exact ⟨hrot.kept rfl rfl rfl rfl, done, lastmsg, hlines, by simpa using hpushed,
          Or.inl ⟨_, rfl, hun⟩⟩
  · rw [hpc] at hp
    cases hp

/-- The position is read back from the rewound stream: the new file from its
first byte on. -/
theorem queueing_telling (ans : Answer) (h : Queueing m base old new O pos lines s)
    (hpc : s.pc = .stillGood .telling) :
    ∃ done, lines done ∧
      Reading m (base ++ done.map (backupEntry m)) new 0 [] (s.fs.file new) (thread m ans s) := by
  obtain ⟨hrot, done, lastmsg, hlines, hpushed, ⟨place, hp, -⟩ | ⟨-, rfl⟩⟩ := h
  · rw [hpc] at hp
    cases hp
  · refine ⟨done, by simpa using hlines, ?_⟩
    have hgood : (Ifstream.opened new).good = true := rfl
    rw [thread_stillGood m ans hpc]
    simp only [stillGood, State.tell, hrot.stream, Ifstream.tellg_good m.lib hgood]
    refine ⟨Nat.zero_le _, rfl, terminated_nil _, rfl, ?_, hrot.same, hrot.grown, rfl⟩
    rw [records_nil, List.map_nil, List.append_nil]
    exact hpushed

theorem Fetching.not_behindChecks (h : Fetching base old new O pos s) : ¬ BehindChecks s := by
  obtain ⟨place, hp, -⟩ := h.place
  simp [BehindChecks, hp]

theorem Queueing.not_behindChecks (h : Queueing m base old new O pos lines s) :
    ¬ BehindChecks s := by
  obtain ⟨done, lastmsg, -, -, ⟨place, hp, -⟩ | ⟨hp, -⟩⟩ := h.queued
  · simp [BehindChecks, hp]
  · simp [BehindChecks, hp]

/-- The read of the backup file is over before the new file is read. -/
theorem Rotated.following (h : Rotated m base old new O pos lines s) (hbehind : BehindChecks s) :
    ∃ done, lines done ∧ Following m (base ++ done.map (backupEntry m)) new 0 s := by
  rcases h with hq | hfollow
  · exact absurd hbehind hq.not_behindChecks
  · exact hfollow

/-- Once the read is over, every step of the thread stays behind it. -/
theorem rotated_thread (ans : Answer) (h : Rotated m base old new O pos lines s)
    (hpath : s.fs.path = some new) (hterm : Terminated newline (s.fs.file new)) :
    Rotated m base old new O pos lines (thread m ans s) := by
  rcases h with hq | ⟨done, hlines, hfollow⟩
  · obtain ⟨done, lastmsg, -, -, ⟨place, hp, -⟩ | ⟨hp, -⟩⟩ := hq.queued
    · exact Or.inl (queueing_unsplit hq hp)
    · obtain ⟨done', hlines, hreading⟩ := queueing_telling ans hq hp
      exact Or.inr ⟨done', hlines, [], _, hreading⟩
  · refine Or.inr ⟨done, hlines, following_thread hfollow
      (hfollow.cleanRead (fun _ => hterm) (.thread ans)) ?_ ?_⟩
    · intro sleepM _ i hi
      exact Option.some.inj (hi.symm.trans hpath)
    · intro _
      exact hpath

/-- The rotation has been noticed, and a read of the backup file that is over has
found exactly the lines behind the position. -/
def Catching (m : Config) (base : List LogEntry) (old new : Nat) (O : Bytes) (pos : Nat)
    (s : State) : Prop :=
  Fetching base old new O pos s ∨ Rotated m base old new O pos (· = pieces newline (O.drop pos)) s

theorem Catching.rotated (h : Catching m base old new O pos s) (hbehind : BehindChecks s) :
    Rotated m base old new O pos (· = pieces newline (O.drop pos)) s := by
  rcases h with hf | hr
  · exact absurd hbehind hf.not_behindChecks
  · exact hr

theorem catching_thread (h : Catching m base old new O pos s) (hpath : s.fs.path = some new)
    (hterm : Terminated newline (s.fs.file new)) (clean : CleanBackup s (.thread ans)) :
    Catching m base old new O pos (thread m ans s) := by
  rcases h with hf | hr
  · by_cases hpc : ∃ ino length, s.pc = .readBackupfile (.reading ino length)
    · obtain ⟨ino, length, hp⟩ := hpc
      have htext := clean ino length hp
      rw [hf.unread_eq hp] at htext
      have hlines := (records_cString_iff (O.drop pos) ans.memory).mpr htext
      refine Or.inr (Or.inl ((fetching_reading hf hp).mono ?_))
      rintro ws rfl
      exact hlines
    · rcases fetching_quiet (m := m) ans hf (by simpa using hpc) with hf' | ⟨hnil, hq⟩
      · exact Or.inl hf'
      · refine Or.inr (Or.inl (hq.mono ?_))
        rintro ws rfl
        simp [hnil, pieces]
  · exact Or.inr (rotated_thread ans hr hpath hterm)

theorem map_payload_backupEntry (m : Config) {ws : List Bytes} (h : ∀ w ∈ ws, newline ∉ w) :
    (ws.map (backupEntry m)).map (payload m) = ws := by
  rw [List.map_map]
  conv_rhs => rw [← List.map_id ws]
  apply List.map_congr_left
  intro w hw
  exact payload_backupEntry m (h w hw)

/-- What the new file has added to the lines of the backup read. -/
theorem Reading.pushed_since {done : List Bytes} {consumed rest : Bytes}
    (h : Reading m (base ++ done.map (backupEntry m)) new 0 consumed rest s)
    (free : ∀ w ∈ done, newline ∉ w) :
    ∃ more, s.pushed = base ++ more ∧ more.map (payload m) = done ++ records newline consumed := by
  refine ⟨done.map (backupEntry m) ++ (records newline consumed).map (liveEntry m), ?_, ?_⟩
  · rw [h.pushed, List.append_assoc]
  · rw [List.map_append, map_payload_backupEntry m free, map_payload_liveEntry]

/-- What has been queued since the notice is an initial part of the lines owed. -/
theorem Catching.pushed_since (h : Catching m base old new O pos s) :
    ∃ more, s.pushed = base ++ more ∧ more.map (payload m) <+:
      pieces newline (O.drop pos) ++ records newline (s.fs.file new) := by
  rcases h with hf | hq | ⟨done, rfl, consumed, rest, hr⟩
  · exact ⟨[], by simpa using hf.pushed, List.nil_prefix⟩
  · obtain ⟨done, lastmsg, hlines, hpushed, -⟩ := hq.queued
    have hdone : done <+: pieces newline (O.drop pos) := ⟨_, hlines⟩
    refine ⟨_, hpushed, ?_⟩
    rw [map_payload_backupEntry m fun w hw => not_mem_of_mem_pieces (hdone.subset hw)]
    exact hdone.trans (List.prefix_append _ _)
  · obtain ⟨more, hpushed, hmore⟩ := hr.pushed_since fun w hw => not_mem_of_mem_pieces hw
    have hrecords := hr.records_append
    rw [List.drop_zero] at hrecords
    refine ⟨more, hpushed, ?_⟩
    rw [hmore, hrecords, ← List.append_assoc]
    exact List.prefix_append _ _

end

end ModelRead
