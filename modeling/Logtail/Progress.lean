import Logtail.BackupRead
import Logtail.Inevitability

/-!
# A poll comes to its end

With a server that accepts every batch the thread finishes the read of the
backup file and then reaches the end of the file it follows. The measure is the
number of unread bytes, and between two reads the distance to the next one.
-/

namespace ModelRead

open Framing FileStream ScribeSend Transitions Inevitability

/-- The server can be reached and stores what it is sent. -/
structure Accepts (ans : Answer) : Prop where
  outcome : ans.outcome = .ok
  opens : ans.opens = true

/-- A step of the thread with a server that accepts. -/
def Accepting (_ : State) : Act → Prop
  | .thread ans => Accepts ans
  | .external _ => False

/-- The first `n` steps of the thread with these answers. -/
def threadRun (m : Config) (s : State) (answers : Nat → Answer) (n : Nat) : State :=
  run (step m) s ((List.range n).map fun k => .thread (answers k))

/-- A poll has just read to the end of the file. -/
def CaughtUp (s : State) : Prop :=
  s.pc = .writeCheckpoint .timing ∧ ∃ f, s.logreadfile = some f ∧ f.eofbit = true

theorem CaughtUp.behindChecks {s : State} (h : CaughtUp s) : BehindChecks s :=
  Or.inr ⟨.timing, h.1⟩

def unread (ino : Nat) (s : State) : Nat := ((s.fs.file ino).length - s.position).toNat

/-- Steps to the next `getline`, at most. -/
def distance (s : State) : Nat :=
  match s.pc with
  | .readLogFile .getline => 0
  | .readLogFile .seeking => 1
  | .stillGood .comparing => 2
  | .stillGood (.opening _) => 3
  | .logtailFile .polling => 4
  | .logtailFile .sending => 5
  | .logtailFile (.waiting _ _) => if s.scribeInter.isOpen then 5 else 6
  | .logtailFile .checking => 6
  | .logtailFile .reopening => 7
  | .readLogFile .closing => 7
  | .writeCheckpoint (.writing _ _) => 8
  | .writeCheckpoint .timing => 9
  | _ => 0

/-- Steps to the read of the backup file. -/
def toRead (s : State) : Nat :=
  match s.pc with
  | .readBackupfile .opening => 2
  | .readBackupfile (.sizing _) => 1
  | _ => 0

/-- Steps to the next round of the line loop of `read_backupfile`, at most. -/
def rounds (s : State) : Nat :=
  match s.pc with
  | .readBackupfile (.splitting lastmsg _ _) => 4 * lastmsg.length
  | .readBackupfile (.sending lastmsg _ _) => 4 * lastmsg.length + 1
  | .readBackupfile (.waiting lastmsg _ _) =>
    4 * lastmsg.length + if s.scribeInter.isOpen then 1 else 2
  | .readBackupfile (.reopening lastmsg _ _) => 4 * lastmsg.length + 3
  | _ => 0

section

variable {m : Config} {base : List LogEntry} {ino start : Nat} {consumed rest : Bytes}
  {s : State} {ans : Answer} {P : State → Prop}

/-- The next step is one of the thread. -/
theorem inevitable_next
    (h : ∀ ans, Accepts ans → Inevitable (step m) Accepting P (thread m ans s)) :
    Inevitable (step m) Accepting P s := by
  refine .next fun a ha => ?_
  cases a with
  | thread ans => exact h ans ha
  | external fs => exact ha.elim

/-- What cannot be avoided comes, whatever the server answers in detail. -/
theorem threadRun_met (h : Inevitable (step m) Accepting P s) (answers : Nat → Answer)
    (haccepts : ∀ n, Accepts (answers n)) : ∃ n, P (threadRun m s answers n) := by
  obtain ⟨n, hmet | hnot⟩ := h.met fun k => .thread (answers k)
  · exact ⟨n, hmet⟩
  · exact absurd (haccepts n) hnot

/-- With accepting steps only the thread moves. -/
theorem accepting_fs {t : State} (s : State) (a : Act) (h : s.fs = t.fs) (ha : Accepting s a) :
    (step m s a).fs = t.fs := by
  cases a with
  | thread ans => exact (thread_fs m ans s).trans h
  | external fs => exact ha.elim

theorem send_of_accepts (h : Accepts ans) (c : Client) : (c.send ans).1 = .connOk := by
  simp [Client.send, h.opens, h.outcome, LogOutcome.connCode]

theorem reopen_of_accepts (h : Accepts ans) (s : State) :
    (s.reopen ans).scribeInter.isOpen = true := by
  simp [Client.reopened, Client.isOpen, h.opens]

theorem Reading.unread_eq (h : Reading m base ino start consumed rest s) :
    unread ino s = rest.length := by
  have hlen := h.start_length
  have hpos := h.position
  rw [unread]
  omega

theorem distance_logtailFile (haccepts : Accepts ans) {place : LogtailPc}
    (hpc : s.pc = .logtailFile place) : distance (thread m ans s) < distance s := by
  rw [thread_logtailFile m ans hpc]
  have hopen := reopen_of_accepts haccepts s
  cases place with
  | polling => simp [distance, hpc, logtailFile]
  | checking =>
    simp only [logtailFile]
    split <;> simp [distance, hpc]
  | sending => simp [distance, hpc, logtailFile, send_of_accepts haccepts]
  | reopening =>
    simp only [State.reopen_scribeInter] at hopen
    simp [distance, hpc, logtailFile, hopen]
  | waiting tM allNum =>
    simp only [State.reopen_scribeInter] at hopen
    by_cases ho : s.scribeInter.isOpen
    · simp [distance, hpc, logtailFile, ho]
    · simp [distance, hpc, logtailFile, ho, hopen]

/-- Between two reads every step comes nearer to the next one. -/
theorem distance_quiet (h : Reading m base ino start consumed rest s)
    (hopen : ∀ sleepM, s.pc = .stillGood (.opening sleepM) → ∃ i, s.fs.path = some i)
    (hstat : s.pc = .stillGood .comparing → s.fs.path = some ino) (haccepts : Accepts ans)
    (hpc : s.pc ≠ .readLogFile .getline) : distance (thread m ans s) < distance s := by
  cases hp : s.pc with
  | logtailFile place => exact distance_logtailFile haccepts hp
  | stillGood place =>
    rw [thread_stillGood m ans hp]
    cases place with
    | opening sleepM =>
      obtain ⟨i, hi⟩ := hopen sleepM hp
      simp [distance, hp, stillGood, hi]
    | comparing =>
      have hnow : s.fs.stat = some ⟨ino, (s.fs.file ino).length⟩ := by simp [Fs.stat, hstat hp]
      simp [distance, hp, stillGood, hnow, h.rotation_none]
    | telling => exact absurd hp h.not_telling
  | readBackupfile place => exact absurd hp (h.not_readBackupfile place)
  | readLogFile place =>
    rw [thread_readLogFile m ans hp]
    cases place with
    | seeking => simp [distance, hp, readLogFile]
    | getline => exact absurd hp hpc
    | closing => simp [distance, hp, readLogFile]
  | writeCheckpoint place =>
    rw [thread_writeCheckpoint m ans hp]
    cases place with
    | timing =>
      simp only [writeCheckpoint]
      split <;> simp [distance, hp]
    | writing tTime writeInfo => simp [distance, hp, writeCheckpoint]

/-- Only a `getline` leads to the end of the read loop. -/
theorem getline_of_timing (h : (thread m ans s).pc = .writeCheckpoint .timing) :
    s.pc = .readLogFile .getline := by
  cases hp : s.pc with
  | logtailFile place =>
    rw [thread_logtailFile m ans hp] at h
    rcases logtailFile_stays ans s place with ⟨place', hp'⟩ | hp' <;> simp [h] at hp'
  | stillGood place =>
    rw [thread_stillGood m ans hp] at h
    cases place with
    | opening sleepM =>
      simp only [stillGood] at h
      split at h <;> cases h
    | comparing =>
      simp only [stillGood] at h
      split at h <;> cases h
    | telling => cases h
  | readBackupfile place =>
    rw [thread_readBackupfile m ans hp] at h
    rcases (readBackupfile_stays m ans s place).1 with ⟨place', hp'⟩ | hp' <;> simp [h] at hp'
  | readLogFile place =>
    rw [thread_readLogFile m ans hp] at h
    cases place with
    | seeking => cases h
    | getline => rfl
    | closing => cases h
  | writeCheckpoint place =>
    rw [thread_writeCheckpoint m ans hp] at h
    cases place with
    | timing =>
      simp only [writeCheckpoint] at h
      split at h <;> cases h
    | writing tTime writeInfo => cases h

/-- A poll that reads the end has nothing behind the position. -/
theorem caughtUp_thread (h : Following m base ino start s) (clean : CleanRead s (.thread ans))
    (hup : CaughtUp (thread m ans s)) :
    ∃ consumed, Reading m base ino start consumed [] (thread m ans s) := by
  obtain ⟨hp, hstream⟩ := hup
  obtain ⟨consumed, rest, hr⟩ := h
  exact ⟨consumed, (reading_readsEnd hr clean ⟨getline_of_timing hp, hstream⟩).1⟩

theorem distance_le (s : State) : distance s ≤ 9 := by
  unfold distance
  split <;> first | omega | (split <;> omega)

/-- A file of whole lines that the thread follows and nobody changes. -/
def Still (m : Config) (base : List LogEntry) (ino start : Nat) (s : State) : Prop :=
  Following m base ino start s ∧ s.fs.path = some ino ∧ Terminated newline (s.fs.file ino)

theorem still_thread (h : Still m base ino start s) (ans : Answer) :
    Still m base ino start (thread m ans s) := by
  obtain ⟨hfollow, hpath, hterm⟩ := h
  refine ⟨?_, by rw [thread_fs, hpath], by rwa [thread_fs]⟩
  apply following_thread hfollow (hfollow.cleanRead (fun _ => hterm) (.thread ans))
  · intro sleepM _ i hi
    exact Option.some.inj (hi.symm.trans hpath)
  · intro _
    exact hpath

/-- Nothing is unread where a poll has read to the end. -/
def EndRead (ino : Nat) (s : State) : Prop :=
  CaughtUp s → (s.fs.file ino).drop s.position.toNat = []

theorem endRead_thread
    (h : s.pc = .readLogFile .getline → ∃ base start, Still m base ino start s) :
    EndRead ino (thread m ans s) := by
  intro hup
  obtain ⟨base, start, hfollow, -, hterm⟩ := h (getline_of_timing hup.1)
  obtain ⟨consumed, hr⟩ := caughtUp_thread hfollow
    (hfollow.cleanRead (fun _ => hterm) (.thread ans)) hup
  rw [hr.toNat_position]
  exact hr.drop_position

theorem still_progress (haccepts : Accepts ans) (h : Still m base ino start s) :
    CaughtUp (thread m ans s) ∨
      10 * unread ino (thread m ans s) + distance (thread m ans s) <
        10 * unread ino s + distance s := by
  obtain ⟨hfollow, hpath, hterm⟩ := h
  have hclean := hfollow.cleanRead (fun _ => hterm) (.thread ans)
  obtain ⟨consumed, rest, hr⟩ := hfollow
  by_cases hpc : s.pc = .readLogFile .getline
  · rcases reading_getline_cases hr hpc hclean with rfl | ⟨line, rest', rfl, hline⟩
    · obtain ⟨-, hstream, hpc'⟩ := reading_getline_end hr hpc ans
      exact Or.inl ⟨hpc', _, hstream, rfl⟩
    · obtain ⟨hr', -, -⟩ := reading_getline_record hr hpc hline ans
      have hle := distance_le (thread m ans s)
      right
      rw [hr.unread_eq, hr'.unread_eq, List.length_append, List.length_cons]
      omega
  · right
    have hr' : Reading m base ino start consumed rest (thread m ans s) := by
      apply reading_quiet hr hpc
      · intro sleepM _ i hi
        exact Option.some.inj (hi.symm.trans hpath)
      · intro _
        exact hpath
    have hlt := distance_quiet hr (fun _ _ => ⟨ino, hpath⟩) (fun _ => hpath) haccepts hpc
    rw [hr.unread_eq, hr'.unread_eq]
    omega

/-- A poll of a file that nobody changes reads to its end, and has queued all of it then. -/
theorem still_endReached (h : Still m base ino start s) :
    Inevitable (step m) Accepting
      (fun t => CaughtUp t ∧ ∃ consumed, Reading m base ino start consumed [] t) s := by
  refine inevitable_of_measure (I := Still m base ino start)
    (fun t => 10 * unread ino t + distance t) ?_ h
  rintro t (ans | fs) ht - ha
  · rcases still_progress ha ht with hup | hlt
    · exact Or.inl ⟨hup, caughtUp_thread ht.1 (ht.1.cleanRead (fun _ => ht.2.2) (.thread ans)) hup⟩
    · exact Or.inr ⟨still_thread ht ans, hlt⟩
  · exact ha.elim

theorem still_caughtUp (h : Still m base ino start s) :
    Inevitable (step m) Accepting CaughtUp s :=
  (still_endReached h).mono fun _ ht => ht.1

end

section

variable {m : Config} {base : List LogEntry} {old new : Nat} {O : Bytes} {pos : Nat}
  {lines : List Bytes → Prop} {s : State} {ans : Answer}

theorem rounds_thread (haccepts : Accepts ans) {place : BackupPc} {lastmsg : Bytes}
    (hpc : s.pc = .readBackupfile place) (hun : unsplit place = some lastmsg) :
    (thread m ans s).pc = .stillGood .telling ∨ rounds (thread m ans s) < rounds s := by
  rw [thread_readBackupfile m ans hpc]
  have hopen := reopen_of_accepts haccepts s
  simp only [State.reopen_scribeInter] at hopen
  cases place with
  | opening => cases hun
  | sizing ino => cases hun
  | reading ino length => cases hun
  | splitting text tM allNum =>
    cases hcut : cut newline text with
    | none =>
      left
      simp only [readBackupfile, hcut, State.goto_pc]
    | some p =>
      obtain ⟨line, rest⟩ := p
      obtain ⟨rfl, -⟩ := (cut_eq_some_iff newline text line rest).mp hcut
      right
      simp only [readBackupfile, hcut]
      split
      · simp only [rounds, hpc, State.goto_pc, List.length_append, List.length_cons]
        omega
      · simp only [rounds, hpc, State.goto_pc, List.length_append, List.length_cons]
        omega
  | sending text tM allNum =>
    right
    simp [rounds, hpc, readBackupfile, send_of_accepts haccepts]
  | reopening text tM allNum =>
    right
    simp [rounds, hpc, readBackupfile, hopen]
  | waiting text tM allNum =>
    right
    by_cases ho : s.scribeInter.isOpen
    · simp [rounds, hpc, readBackupfile, ho]
    · simp [rounds, hpc, readBackupfile, ho, hopen]

/-- The line loop of `read_backupfile` ends. -/
theorem queueing_telling_reached (h : Queueing m base old new O pos lines s) :
    Inevitable (step m) Accepting
      (fun t => t.pc = .stillGood .telling ∧ Queueing m base old new O pos lines t) s := by
  refine inevitable_of_measure (I := Queueing m base old new O pos lines) rounds ?_ h
  rintro t (ans | fs) ht hnot ha
  · obtain ⟨done, lastmsg, -, -, ⟨place, hp, hun⟩ | ⟨hp, -⟩⟩ := ht.queued
    · have hnext : Queueing m base old new O pos lines (thread m ans t) := queueing_unsplit ht hp
      rcases rounds_thread ha hp hun with hdone | hlt
      · exact Or.inl ⟨hdone, hnext⟩
      · exact Or.inr ⟨hnext, hlt⟩
    · exact absurd ⟨hp, ht⟩ hnot
  · exact ha.elim

theorem toRead_thread (h : Fetching base old new O pos s)
    (hpc : ∀ ino length, s.pc ≠ .readBackupfile (.reading ino length)) :
    toRead (thread m ans s) < toRead s := by
  obtain ⟨place, hp, hbefore⟩ := h.place
  rw [thread_readBackupfile m ans hp]
  cases hbefore with
  | opening => simp [toRead, hp, readBackupfile, h.rotating.backup]
  | sizing =>
    simp only [readBackupfile]
    split <;> simp [toRead, hp]
  | reading more => exact absurd hp (hpc _ _)

/-- A step on the way to the read of the backup file is a step nearer to it, or there is
nothing to read. -/
theorem fetching_thread (ans : Answer) (h : Fetching base old new O pos s) :
    Queueing m base old new O pos (fun _ => True) (thread m ans s) ∨
      (Fetching base old new O pos (thread m ans s) ∧ toRead (thread m ans s) < toRead s) := by
  by_cases hpc : ∃ ino length, s.pc = .readBackupfile (.reading ino length)
  · obtain ⟨ino, length, hp⟩ := hpc
    exact Or.inl ((fetching_reading h hp).mono fun _ _ => trivial)
  · rcases fetching_quiet (m := m) ans h (by simpa using hpc) with hf | ⟨-, hq⟩
    · exact Or.inr ⟨hf, toRead_thread h (by simpa using hpc)⟩
    · exact Or.inl (hq.mono fun _ _ => trivial)

/-- The backup file is read, or there is nothing to read. -/
theorem fetching_queueing_reached (h : Fetching base old new O pos s) :
    Inevitable (step m) Accepting (Queueing m base old new O pos (fun _ => True)) s := by
  refine inevitable_of_measure (I := Fetching base old new O pos) toRead ?_ h
  rintro t (ans | fs) hf - ha
  · exact fetching_thread ans hf
  · exact ha.elim

/-- After the read of the backup file the poll reads the new file to its end. -/
theorem rotated_caughtUp (h : Rotated m base old new O pos lines s)
    (hpath : s.fs.path = some new) (hterm : Terminated newline (s.fs.file new)) :
    Inevitable (step m) Accepting CaughtUp s := by
  rcases h with hq | ⟨done, -, hfollow⟩
  · refine ((queueing_telling_reached hq).keep (fun t a => accepting_fs t a) rfl).trans ?_
    rintro t ⟨⟨hp, hqt⟩, ht⟩
    refine inevitable_next fun ans _ => ?_
    obtain ⟨done, -, hreading⟩ := queueing_telling ans hqt hp
    have hfs : (thread m ans t).fs = s.fs := (thread_fs m ans t).trans ht
    exact still_caughtUp ⟨⟨[], _, hreading⟩, by rw [hfs, hpath], by rwa [hfs]⟩
  · exact still_caughtUp ⟨hfollow, hpath, hterm⟩

/-- From the notice of a rotation on the poll comes to the end of the new file. -/
theorem catching_caughtUp (h : Catching m base old new O pos s)
    (hpath : s.fs.path = some new) (hterm : Terminated newline (s.fs.file new)) :
    Inevitable (step m) Accepting CaughtUp s := by
  rcases h with hf | hr
  · refine ((fetching_queueing_reached (m := m) hf).keep (fun t a => accepting_fs t a) rfl).trans ?_
    rintro t ⟨hq, hfs⟩
    exact rotated_caughtUp (Or.inl hq) (by rw [hfs, hpath]) (by rwa [hfs])
  · exact rotated_caughtUp hr hpath hterm

end

end ModelRead
