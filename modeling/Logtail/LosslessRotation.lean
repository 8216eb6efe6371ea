import Logtail.Progress

/-!
# A rotation that a poll notices

From the poll that notices the rotation to the end of the new file: the messages
carry the lines of the old file from the position on, then those of the new file.
This holds exactly when the read of the backup file meets clean text.
-/

namespace ModelRead

open Framing FileStream ScribeSend Transitions Inevitability

/-- At the loop head, with a rotation that the next stat will show. Batch,
history and connection are arbitrary. -/
structure Rollover (s : State) (old new pos : Nat) : Prop where
  pc : s.pc = .logtailFile .polling
  path : s.fs.path = some new
  backup : s.fs.backupPath = some old
  noticed : rotation ⟨new, (s.fs.file new).length⟩ s.oStat ≠ none
  position : s.position = pos
  inside : pos ≤ (s.fs.file old).length
  lines : Terminated newline (s.fs.file new)

/-- The payloads queued since the state `s`. -/
def payloadsSince (m : Config) (s t : State) : List Bytes :=
  (queuedSince s t).map (payload m)

/-- What has to be sent: the old file from the position on, an unterminated last
line included, and the new file. -/
def owedLines (s : State) (old new pos : Nat) : List Bytes :=
  pieces newline ((s.fs.file old).drop pos) ++ records newline (s.fs.file new)

/-- The poll has not come to its stat yet. -/
structure Approaching (base : List LogEntry) (old new pos : Nat) (s : State) : Prop where
  path : s.fs.path = some new
  backup : s.fs.backupPath = some old
  noticed : rotation ⟨new, (s.fs.file new).length⟩ s.oStat ≠ none
  position : s.position = pos
  inside : pos ≤ (s.fs.file old).length
  pushed : s.pushed = base
  place : s.pc = .logtailFile .polling ∨ (∃ sleepM, s.pc = .stillGood (.opening sleepM)) ∨
    (s.pc = .stillGood .comparing ∧ s.logreadfile = some (.opened new))

/-- Steps to the stat. -/
def toStat (s : State) : Nat :=
  match s.pc with
  | .logtailFile .polling => 2
  | .stillGood (.opening _) => 1
  | _ => 0

section

variable {m : Config} {base : List LogEntry} {old new pos : Nat} {O : Bytes} {s s' : State}
  {ans : Answer}

theorem Rollover.approaching (h : Rollover s old new pos) :
    Approaching s.pushed old new pos s :=
  ⟨h.path, h.backup, h.noticed, h.position, h.inside, rfl, Or.inl h.pc⟩

theorem approaching_thread (ans : Answer) (h : Approaching base old new pos s) :
    (Approaching base old new pos (thread m ans s) ∧ toStat (thread m ans s) < toStat s) ∨
      Fetching base old new (s.fs.file old) pos (thread m ans s) := by
  obtain ⟨hpath, hbackup, hnoticed, hposition, hinside, hpushed, hplace⟩ := h
  rcases hplace with hp | ⟨sleepM, hp⟩ | ⟨hp, hstream⟩
  · left
    rw [thread_logtailFile m ans hp]
    refine ⟨⟨hpath, hbackup, hnoticed, hposition, hinside, hpushed, Or.inr (Or.inl ⟨5, rfl⟩)⟩, ?_⟩
    simp [toStat, hp, logtailFile]
  · left
    rw [thread_stillGood m ans hp]
    simp only [stillGood, hpath]
    refine ⟨⟨hpath, hbackup, hnoticed, hposition, hinside, hpushed, Or.inr (Or.inr ⟨rfl, rfl⟩)⟩, ?_⟩
    simp [toStat, hp]
  · right
    have hstat : s.fs.stat = some ⟨new, (s.fs.file new).length⟩ := by simp [Fs.stat, hpath]
    have hseek : (Ifstream.opened new).seekg m.lib 0 = .opened new :=
      Ifstream.seekg_opened m.lib new 0
    rw [thread_stillGood m ans hp]
    cases hrot : rotation ⟨new, (s.fs.file new).length⟩ s.oStat with
    | none => exact absurd hrot hnoticed
    | some r =>
      simp only [stillGood, hstat, Option.getD_some, hrot]
      refine ⟨⟨hbackup, rfl, hinside, hposition, ?_, rfl, Nat.le_refl _⟩, hpushed, _, rfl, .opening⟩
      simp [hstream, hseek]

/-- Before the stat, or behind it without a wrong read. -/
def Carrying (m : Config) (base : List LogEntry) (old new : Nat) (O : Bytes) (pos : Nat)
    (s : State) : Prop :=
  Approaching base old new pos s ∨ Catching m base old new O pos s

/-- Behind a read that found something else. -/
def Miscarried (m : Config) (base : List LogEntry) (old new : Nat) (O : Bytes) (pos : Nat)
    (s : State) : Prop :=
  Rotated m base old new O pos
    (fun ws => ws ≠ pieces newline (O.drop pos) ∧ ∀ w ∈ ws, newline ∉ w) s

/-- Nothing in the file system changes, and the new file holds whole lines. -/
structure Settled (old new : Nat) (O N : Bytes) (s : State) : Prop where
  path : s.fs.path = some new
  old : s.fs.file old = O
  new : s.fs.file new = N
  lines : Terminated newline N

theorem Settled.thread {N : Bytes} (h : Settled old new O N s) :
    Settled old new O N (thread m ans s) where
  path := by rw [thread_fs, h.path]
  old := by rw [thread_fs, h.old]
  new := by rw [thread_fs, h.new]
  lines := h.lines

theorem Settled.newLines {N : Bytes} (h : Settled old new O N s) :
    Terminated newline (s.fs.file new) := by
  rw [h.new]
  exact h.lines

theorem carrying_clean {N : Bytes} (hs : Settled old new O N s)
    (h : Carrying m base old new O pos s) (clean : CleanBackup s (.thread ans)) :
    Carrying m base old new O pos (thread m ans s) := by
  rcases h with ha | hc
  · rcases approaching_thread (m := m) ans ha with ⟨ha', -⟩ | hf
    · exact Or.inl ha'
    · rw [hs.old] at hf
      exact Or.inr (Or.inl hf)
  · exact Or.inr (catching_thread hc hs.path hs.newLines clean)

theorem carrying_unclean (h : Carrying m base old new O pos s)
    (unclean : ¬ CleanBackup s (.thread ans)) :
    Miscarried m base old new O pos (thread m ans s) := by
  simp only [CleanBackup, not_forall] at unclean
  obtain ⟨ino, length, hp, htext⟩ := unclean
  rcases h with ha | hf | hq | ⟨done, -, consumed, rest, hr⟩
  · rcases ha.place with hp' | ⟨sleepM, hp'⟩ | ⟨hp', -⟩ <;> rw [hp] at hp' <;> cases hp'
  · rw [hf.unread_eq hp] at htext
    refine Or.inl ((fetching_reading hf hp).mono ?_)
    rintro ws rfl
    refine ⟨fun heq => htext ((records_cString_iff _ _).mp heq), ?_⟩
    intro w hw
    exact not_mem_of_mem_records hw
  · obtain ⟨done, lastmsg, -, -, ⟨place, hp', hun⟩ | ⟨hp', -⟩⟩ := hq.queued
    · obtain rfl : place = .reading ino length := by simpa [hp] using hp'.symm
      cases hun
    · rw [hp] at hp'
      cases hp'
  · exact absurd hp (hr.not_readBackupfile _)

theorem Carrying.payloads_isPrefix {N : Bytes} (hs : Settled old new O N s)
    (h : Carrying m base old new O pos s) :
    (s.pushed.drop base.length).map (payload m) <+:
      pieces newline (O.drop pos) ++ records newline N := by
  rcases h with ha | hc
  · simp [ha.pushed]
  · obtain ⟨more, hpushed, hmore⟩ := hc.pushed_since
    rwa [hpushed, List.drop_left, ← hs.new]

/-- At the end of the new file all of it has been queued behind the lines that
the read of the backup file gave. -/
theorem rotated_at_end {N : Bytes} {lines : List Bytes → Prop} (hs : Settled old new O N s)
    (h : Rotated m base old new O pos lines s) (free : ∀ ws, lines ws → ∀ w ∈ ws, newline ∉ w)
    (hup : CaughtUp s) (hend : (s.fs.file new).drop s.position.toNat = []) :
    ∃ done, lines done ∧
      (s.pushed.drop base.length).map (payload m) = done ++ records newline N := by
  obtain ⟨done, hlines, consumed, rest, hr⟩ := h.following hup.behindChecks
  obtain ⟨more, hpushed, hmore⟩ := hr.pushed_since (free done hlines)
  have hrecords := hr.records_append
  rw [hr.toNat_position, hr.drop_position] at hend
  rw [hend, records_nil, List.append_nil, List.drop_zero, hs.new] at hrecords
  exact ⟨done, hlines, by rw [hpushed, List.drop_left, hmore, hrecords]⟩

theorem Settled.still {N : Bytes} {start : Nat} (hs : Settled old new O N s)
    (h : Following m base new start s) : Still m base new start s :=
  ⟨h, hs.path, hs.newLines⟩

theorem Rotated.still_at_getline {N : Bytes} {lines : List Bytes → Prop}
    (h : Rotated m base old new O pos lines s) (hs : Settled old new O N s)
    (hpc : s.pc = .readLogFile .getline) : ∃ base start, Still m base new start s := by
  obtain ⟨done, -, hfollow⟩ := h.following (Or.inl ⟨_, hpc⟩)
  exact ⟨_, _, hs.still hfollow⟩

theorem Carrying.rotated (h : Carrying m base old new O pos s) (hbehind : BehindChecks s) :
    Rotated m base old new O pos (· = pieces newline (O.drop pos)) s := by
  rcases h with ha | hc
  · rcases ha.place with hp | ⟨sleepM, hp⟩ | ⟨hp, -⟩ <;> simp [BehindChecks, hp] at hbehind
  · exact hc.rotated hbehind

/-- From the loop head the stat comes that shows the rotation. -/
theorem approaching_fetching {N : Bytes} (hs : Settled old new O N s)
    (h : Approaching base old new pos s) :
    Inevitable (step m) Accepting
      (fun t => Fetching base old new O pos t ∧ Settled old new O N t) s := by
  refine inevitable_of_measure
    (I := fun t => Approaching base old new pos t ∧ Settled old new O N t) toStat ?_ ⟨h, hs⟩
  rintro t (ans | fs) ⟨ha, ht⟩ - haccepts
  · rcases approaching_thread (m := m) ans ha with ⟨ha', hlt⟩ | hf
    · exact Or.inr ⟨⟨ha', ht.thread⟩, hlt⟩
    · rw [ht.old] at hf
      exact Or.inl ⟨hf, ht.thread⟩
  · exact haccepts.elim

/-- From the loop head the poll comes to the end of the new file. -/
theorem approaching_caughtUp {N : Bytes} (hs : Settled old new O N s)
    (h : Approaching base old new pos s) : Inevitable (step m) Accepting CaughtUp s := by
  refine (approaching_fetching hs h).trans ?_
  rintro t ⟨hf, ht⟩
  exact catching_caughtUp (Or.inl hf) ht.path ht.newLines

theorem Rollover.settled (h : Rollover s old new pos) :
    Settled old new (s.fs.file old) (s.fs.file new) s :=
  ⟨h.path, rfl, rfl, h.lines⟩

end

/-- The invariant of the runs from the loop head `s` in which the read is clean. -/
structure OnCourse (m : Config) (s : State) (old new pos : Nat) (t : State) : Prop where
  settled : Settled old new (s.fs.file old) (s.fs.file new) t
  endRead : EndRead new t
  carrying : Carrying m s.pushed old new (s.fs.file old) pos t

/-- The invariant behind a read that was not. -/
structure OffCourse (m : Config) (s : State) (old new pos : Nat) (t : State) : Prop where
  settled : Settled old new (s.fs.file old) (s.fs.file new) t
  endRead : EndRead new t
  miscarried : Miscarried m s.pushed old new (s.fs.file old) pos t

section

variable {m : Config} {old new pos : Nat} {s t : State} {a : Act}

theorem OnCourse.still_at_getline (h : OnCourse m s old new pos t)
    (hpc : t.pc = .readLogFile .getline) : ∃ base start, Still m base new start t :=
  (h.carrying.rotated (Or.inl ⟨_, hpc⟩)).still_at_getline h.settled hpc

theorem onCourse_start (h : Rollover s old new pos) : OnCourse m s old new pos s := by
  refine ⟨h.settled, ?_, Or.inl h.approaching⟩
  intro hup
  have hp := hup.1
  rw [h.pc] at hp
  cases hp

theorem onCourse_step (h : OnCourse m s old new pos t) (thread : ThreadStep t a)
    (clean : CleanBackup t a) : OnCourse m s old new pos (step m t a) := by
  cases a with
  | external fs => exact thread.elim
  | thread ans =>
    exact ⟨h.settled.thread, endRead_thread (h.still_at_getline),
      carrying_clean h.settled h.carrying clean⟩

theorem offCourse_of_unclean (h : OnCourse m s old new pos t) (thread : ThreadStep t a)
    (unclean : ¬ CleanBackup t a) : OffCourse m s old new pos (step m t a) := by
  cases a with
  | external fs => exact thread.elim
  | thread ans =>
    exact ⟨h.settled.thread, endRead_thread (h.still_at_getline),
      carrying_unclean h.carrying unclean⟩

theorem offCourse_step (h : OffCourse m s old new pos t) (thread : ThreadStep t a) :
    OffCourse m s old new pos (step m t a) := by
  cases a with
  | external fs => exact thread.elim
  | thread ans =>
    exact ⟨h.settled.thread, endRead_thread (h.miscarried.still_at_getline h.settled),
      rotated_thread ans h.miscarried h.settled.path h.settled.newLines⟩

theorem OnCourse.payloads_isPrefix (h : OnCourse m s old new pos t) :
    payloadsSince m s t <+: owedLines s old new pos :=
  h.carrying.payloads_isPrefix h.settled

theorem OnCourse.payloads_at_end (h : OnCourse m s old new pos t) (hup : CaughtUp t) :
    payloadsSince m s t = owedLines s old new pos := by
  obtain ⟨done, rfl, hpayloads⟩ := rotated_at_end h.settled (h.carrying.rotated hup.behindChecks)
    (fun ws hws w hw => not_mem_of_mem_pieces (hws ▸ hw)) hup (h.endRead hup)
  exact hpayloads

theorem OffCourse.payloads_at_end (h : OffCourse m s old new pos t) (hup : CaughtUp t) :
    payloadsSince m s t ≠ owedLines s old new pos := by
  obtain ⟨done, ⟨hne, -⟩, hpayloads⟩ := rotated_at_end h.settled h.miscarried
    (fun ws hws => hws.2) hup (h.endRead hup)
  rw [payloadsSince, queuedSince, hpayloads, owedLines, Ne, List.append_left_inj]
  exact hne

end

/-- For every old content, position in it, new content of whole lines, pending
batch and server: runs with a clean read of the backup file carry an initial part
of the owed lines in every state; a poll that has come to the end of the new file
has carried exactly the owed lines if and only if the read was clean; and with a
server that accepts, whatever else the answers are, a poll comes there. -/
theorem owedLines_iff_cleanBackup (m : Config) {s : State} {old new pos : Nat}
    (h : Rollover s old new pos) (answers : List Answer) :
    (Guarded (step m) CleanBackup s (answers.map .thread) →
      Always (step m) (fun t => payloadsSince m s t <+: owedLines s old new pos) s
        (answers.map .thread)) ∧
    (CaughtUp (run (step m) s (answers.map .thread)) →
      (payloadsSince m s (run (step m) s (answers.map .thread)) = owedLines s old new pos ↔
        Guarded (step m) CleanBackup s (answers.map .thread))) ∧
    (∀ later : Nat → Answer, (∀ n, Accepts (later n)) →
      ∃ n, CaughtUp (threadRun m s later n)) := by
  have hthreads := threadSteps_guarded m s answers
  have hstart : OnCourse m s old new pos s := onCourse_start h
  have hkeep : ∀ t a, OnCourse m s old new pos t → ThreadStep t a ∧ CleanBackup t a →
      OnCourse m s old new pos (step m t a) := fun t a ht hg => onCourse_step ht hg.1 hg.2
  refine ⟨?_, ?_, threadRun_met (approaching_caughtUp h.settled h.approaching)⟩
  · intro hclean
    exact always_mono (fun t ht => ht.payloads_isPrefix)
      (invariant_always hkeep hstart (guarded_and hthreads hclean))
  · intro hup
    constructor
    · intro hexact
      by_contra hunclean
      have hoff := run_of_not_guarded (J := OffCourse m s old new pos)
        (fun t a ht => onCourse_step ht) (fun t a ht => offCourse_of_unclean ht)
        (fun t a ht => offCourse_step ht) hstart hthreads hunclean
      exact hoff.payloads_at_end hup hexact
    · intro hclean
      have hon := invariant_run hkeep hstart (guarded_and hthreads hclean)
      exact hon.payloads_at_end hup

theorem owedLines_wholeLines :
    payloadsSince (shortModel .cxx11)
      (started (twoFiles [97, newline] [98, newline]) none 0 ⟨1, 2⟩ true)
      (run (step (shortModel .cxx11))
        (started (twoFiles [97, newline] [98, newline]) none 0 ⟨1, 2⟩ true)
        ((List.replicate 12 (allWell 1)).map .thread)) = [[97], [98]] := by
  have h : Rollover (started (twoFiles [97, newline] [98, newline]) none 0 ⟨1, 2⟩ true) 1 2 0 :=
    ⟨rfl, rfl, rfl, by decide, rfl, by decide, by decide⟩
  have hexact := (owedLines_iff_cleanBackup (shortModel .cxx11) h
    (List.replicate 12 (allWell 1))).2.1 ⟨rfl, _, rfl, rfl⟩
  refine (hexact.mpr ⟨nofun, nofun, nofun, nofun, nofun, ?_, nofun, nofun, nofun, nofun, nofun,
    nofun, trivial⟩).trans (by decide)
  intro ino length hp
  cases hp
  exact ⟨by decide, Or.inl ⟨by decide, by decide⟩⟩

/-- The last line `a` of the old file has no newline and is dropped. -/
theorem not_owedLines_unterminated :
    Rollover (started (twoFiles [97] [98, newline]) none 0 ⟨1, 1⟩ true) 1 2 0 ∧
      CaughtUp (run (step (shortModel .cxx11))
        (started (twoFiles [97] [98, newline]) none 0 ⟨1, 1⟩ true)
        ((List.replicate 11 (allWell 1)).map .thread)) ∧
      payloadsSince (shortModel .cxx11) (started (twoFiles [97] [98, newline]) none 0 ⟨1, 1⟩ true)
        (run (step (shortModel .cxx11))
          (started (twoFiles [97] [98, newline]) none 0 ⟨1, 1⟩ true)
          ((List.replicate 11 (allWell 1)).map .thread)) ≠
        owedLines (started (twoFiles [97] [98, newline]) none 0 ⟨1, 1⟩ true) 1 2 0 := by
  refine ⟨⟨rfl, rfl, rfl, by decide, rfl, by decide, by decide⟩, ⟨rfl, _, rfl, rfl⟩, by decide⟩

end ModelRead
