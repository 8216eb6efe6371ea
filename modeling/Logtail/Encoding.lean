import Logtail.LosslessRotation

/-!
# Two encoders of one record format

A call of `read_backupfile` and a read loop of `readLogFile` over the same bytes
from the same offset. The live path ends each message with a newline and the
backup path does not, so they agree on nothing but the empty rest.
-/

namespace ModelRead

open Framing FileStream ScribeSend Transitions Inevitability

/-- `read_backupfile` is entered with `C` at `backup_path`. -/
structure AtBackup (C : Bytes) (off old new : Nat) (s : State) : Prop where
  rotating : Rotating old new C off s
  pc : s.pc = .readBackupfile .opening

/-- The read loop is entered with `C` at `path`, and the batch limit is out of
reach. -/
structure AtLive (m : Config) (C : Bytes) (off ino : Nat) (s : State) : Prop where
  pc : s.pc = .readLogFile .seeking
  path : s.fs.path = some ino
  content : s.fs.file ino = C
  inside : off ≤ C.length
  position : s.position = off
  stream : s.logreadfile = some (.opened ino)
  same : s.oStat.stIno = ino
  grown : s.oStat.stSize ≤ C.length
  room : s.scribeInter.messages.length + C.length < sizeT m.maxSendMsg

/-- `read_backupfile` has returned. -/
def Returned (s : State) : Prop := s.pc = .stillGood .telling

/-- The read loop has ended. -/
def LoopEnded (s : State) : Prop := s.pc = .writeCheckpoint .timing

/-- The concatenated messages split at newlines into exactly these messages. -/
def SplitsBack (es : List LogEntry) : Prop :=
  Terminated newline (es.flatMap LogEntry.message) ∧
    (records newline (es.flatMap LogEntry.message)).map (· ++ [newline]) = es.map LogEntry.message

/-- The lines that a backup read may find behind `off`. -/
def BackupLines (C : Bytes) (off : Nat) (ws : List Bytes) : Prop :=
  (C.drop off = [] → ws = []) ∧ ∀ w ∈ ws, newline ∉ w

section

variable {m : Config} {C : Bytes} {off old new ino : Nat} {base : List LogEntry} {s : State}
  {ans : Answer}

/-- No message of the backup path is one of the live path. -/
theorem backupEntry_ne_liveEntry {v w : Bytes} (h : newline ∉ v) :
    backupEntry m v ≠ liveEntry m w := by
  intro heq
  have hmessage : m.logPrefix ++ v = m.logPrefix ++ w ++ [newline] := congrArg LogEntry.message heq
  rw [List.append_assoc, List.append_cancel_left_eq] at hmessage
  apply h
  rw [hmessage]
  exact List.mem_append_right _ (List.mem_singleton_self _)

theorem splitsBack_nil : SplitsBack [] := ⟨terminated_nil _, rfl⟩

/-- The call of `read_backupfile` up to its return. -/
theorem backupCall_thread
    (h : Fetching base old new C off s ∨ Queueing m base old new C off (BackupLines C off) s)
    (running : ¬ Returned s) :
    Fetching base old new C off (thread m ans s) ∨
      Queueing m base old new C off (BackupLines C off) (thread m ans s) := by
  rcases h with hf | hq
  · by_cases hpc : ∃ ino length, s.pc = .readBackupfile (.reading ino length)
    · obtain ⟨ino, length, hp⟩ := hpc
      have hmore := hf.more hp
      refine Or.inr ((fetching_reading hf hp).mono ?_)
      rintro ws rfl
      exact ⟨fun hnil => absurd hnil hmore, fun w hw => not_mem_of_mem_records hw⟩
    · rcases fetching_quiet (m := m) ans hf (by simpa using hpc) with hf' | ⟨-, hq⟩
      · exact Or.inl hf'
      · refine Or.inr (hq.mono ?_)
        rintro ws rfl
        exact ⟨fun _ => rfl, nofun⟩
  · obtain ⟨done, lastmsg, -, -, ⟨place, hp, -⟩ | ⟨hp, -⟩⟩ := hq.queued
    · exact Or.inr (queueing_unsplit hq hp)
    · exact absurd hp running

theorem backupCall_returned
    (h : Fetching base old new C off s ∨ Queueing m base old new C off (BackupLines C off) s)
    (returned : Returned s) :
    ∃ ws, BackupLines C off ws ∧ s.pushed = base ++ ws.map (backupEntry m) := by
  rcases h with hf | hq
  · obtain ⟨place, hp, -⟩ := hf.place
    rw [Returned, hp] at returned
    cases returned
  · obtain ⟨done, lastmsg, hlines, hpushed, ⟨place, hp, -⟩ | ⟨-, rfl⟩⟩ := hq.queued
    · rw [Returned, hp] at returned
      cases returned
    · exact ⟨done, by simpa using hlines, hpushed⟩

/-- The read loop up to its end: the batch limit is not met, so it ends with the
file. -/
inductive LiveCall (m : Config) (base : List LogEntry) (C : Bytes) (off ino : Nat) (s : State) :
    Prop where
  | running (consumed rest : Bytes) (reading : Reading m base ino off consumed rest s)
      (content : s.fs.file ino = C)
      (pc : s.pc = .readLogFile .seeking ∨ s.pc = .readLogFile .getline)
      (room : s.scribeInter.messages.length + rest.length < sizeT m.maxSendMsg)
  | ended (pc : LoopEnded s) (pushed : s.pushed =
      base ++ (records newline (C.drop off)).map (liveEntry m))

theorem AtLive.reading (h : AtLive m C off ino s) :
    Reading m s.pushed ino off [] (C.drop off) s where
  inside := by rw [h.content]; exact h.inside
  content := by rw [h.content, List.nil_append]
  complete := terminated_nil _
  position := by simpa using h.position
  pushed := by simp
  same := h.same
  grown := by rw [h.content]; exact h.grown
  place := by
    rw [LivePlace, h.pc]
    exact h.stream

theorem AtLive.liveCall (h : AtLive m C off ino s) : LiveCall m s.pushed C off ino s := by
  refine .running [] (C.drop off) h.reading h.content (Or.inl h.pc) ?_
  have := h.room
  rw [List.length_drop]
  omega

theorem liveCall_thread (whole : Terminated newline C) (h : LiveCall m base C off ino s)
    (unfinished : ¬ LoopEnded s) : LiveCall m base C off ino (thread m ans s) := by
  cases h with
  | ended pc pushed => exact absurd pc unfinished
  | running consumed rest hr hcontent hpc hroom =>
    have hcontent' : (thread m ans s).fs.file ino = C := by rw [thread_fs, hcontent]
    rcases hpc with hpc | hpc
    · have hr' : Reading m base ino off consumed rest (thread m ans s) := by
        apply reading_quiet hr <;> simp [hpc]
      refine .running consumed rest hr' hcontent' (Or.inr ?_) ?_
      · rw [thread_readLogFile m ans hpc]
        rfl
      · rw [thread_readLogFile m ans hpc]
        exact hroom
    · have hclean : CleanRead s (.thread ans) := by
        apply Following.cleanRead ⟨consumed, rest, hr⟩
        intro _
        rw [hcontent]
        exact whole
      rcases reading_getline_cases hr hpc hclean with rfl | ⟨line, rest', rfl, hline⟩
      · obtain ⟨hr', -, hpc'⟩ := reading_getline_end hr hpc ans
        refine .ended hpc' ?_
        have hrecords := hr'.records_append
        rw [hcontent', records_nil, List.append_nil] at hrecords
        rw [hr'.pushed, hrecords]
      · obtain ⟨hr', -, -, hmessages, hcase⟩ := reading_getline_record hr hpc hline ans
        simp only [List.length_append, List.length_cons] at hroom
        rcases hcase with hpc' | ⟨-, hfull⟩
        · refine .running _ rest' hr' hcontent' (Or.inr hpc') ?_
          rw [hmessages, List.length_append, List.length_singleton]
          omega
        · omega

/-- What a completed call of `read_backupfile` has queued. -/
theorem backup_queued (h : AtBackup C off old new s) {answers : List Answer}
    (returned : Until (step m) Returned s (answers.map .thread)) :
    ∃ ws, BackupLines C off ws ∧
      queuedSince s (run (step m) s (answers.map .thread)) = ws.map (backupEntry m) := by
  have hguarded := guarded_and (threadSteps_guarded m s answers) returned.2
  have hrun := invariant_run (I := fun t => Fetching s.pushed old new C off t ∨
    Queueing m s.pushed old new C off (BackupLines C off) t) ?_
    (Or.inl ⟨h.rotating, rfl, _, h.pc, .opening⟩) hguarded
  · obtain ⟨ws, hlines, hpushed⟩ := backupCall_returned hrun returned.1
    exact ⟨ws, hlines, by rw [queuedSince, hpushed, List.drop_left]⟩
  · rintro t (ans | fs) ht ⟨hthread, hrunning⟩
    · exact backupCall_thread ht hrunning
    · exact hthread.elim

/-- What a completed read loop has queued. -/
theorem live_queued (whole : Terminated newline C) (h : AtLive m C off ino s)
    {answers : List Answer} (ended : Until (step m) LoopEnded s (answers.map .thread)) :
    queuedSince s (run (step m) s (answers.map .thread)) =
      (records newline (C.drop off)).map (liveEntry m) := by
  have hguarded := guarded_and (threadSteps_guarded m s answers) ended.2
  have hrun := invariant_run (I := LiveCall m s.pushed C off ino) ?_ h.liveCall hguarded
  · cases hrun with
    | running consumed rest _ _ hpc _ =>
      have hend := ended.1
      rw [LoopEnded] at hend
      rcases hpc with hpc | hpc <;> rw [hpc] at hend <;> cases hend
    | ended _ hpushed => rw [queuedSince, hpushed, List.drop_left]
  · rintro t (ans | fs) ht ⟨hthread, hrunning⟩
    · exact liveCall_thread whole ht hrunning
    · exact hthread.elim

theorem backup_returns (h : AtBackup C off old new s) :
    Inevitable (step m) Accepting Returned s := by
  have hfetch : Fetching s.pushed old new C off s := ⟨h.rotating, rfl, _, h.pc, .opening⟩
  refine (fetching_queueing_reached hfetch).trans ?_
  intro t ht
  exact (queueing_telling_reached ht).mono fun u hu => hu.1

theorem live_ends (whole : Terminated newline C) (h : AtLive m C off ino s) :
    Inevitable (step m) Accepting LoopEnded s := by
  have hstill : Still m s.pushed ino off s :=
    ⟨⟨_, _, h.reading⟩, h.path, by rw [h.content]; exact whole⟩
  exact (still_caughtUp hstill).mono fun t ht => ht.1

/-- Lists of the two kinds are equal only if both are empty. -/
theorem entries_eq_iff {ws vs : List Bytes} (free : ∀ w ∈ ws, newline ∉ w) :
    ws.map (backupEntry m) = vs.map (liveEntry m) ↔ ws = [] ∧ vs = [] := by
  constructor
  · intro heq
    have hvs : vs = [] := by
      by_contra hne
      obtain ⟨v, vs, rfl⟩ := List.exists_cons_of_ne_nil hne
      have hmem : liveEntry m v ∈ ws.map (backupEntry m) := by simp [heq]
      obtain ⟨w, hw, hsame⟩ := List.mem_map.mp hmem
      exact backupEntry_ne_liveEntry (free w hw) hsame
    rw [hvs] at heq
    exact ⟨List.map_eq_nil_iff.mp heq, hvs⟩
  · rintro ⟨rfl, rfl⟩
    rfl

end

/-- For all contents of whole lines, offsets, memory and servers: the two paths
queue the same list, whose messages split back from every concatenation, exactly
when nothing stands behind the offset. With a server that accepts, whatever else the
answers are, both calls come to their end. -/
theorem encodings_agree_iff (m : Config) {C : Bytes} {off old new ino : Nat} {b l : State}
    (whole : Terminated newline C) (hb : AtBackup C off old new b) (hl : AtLive m C off ino l) :
    (∀ backupAnswers liveAnswers : List Answer,
      Until (step m) Returned b (backupAnswers.map .thread) →
      Until (step m) LoopEnded l (liveAnswers.map .thread) →
      let viaBackup := queuedSince b (run (step m) b (backupAnswers.map .thread))
      let viaLive := queuedSince l (run (step m) l (liveAnswers.map .thread))
      ((viaBackup = viaLive ∧
        ∀ es, (∀ le ∈ es, le ∈ viaBackup ∨ le ∈ viaLive) → SplitsBack es) ↔ off = C.length)) ∧
    (∀ answers : Nat → Answer, (∀ n, Accepts (answers n)) →
      (∃ n, Until (step m) Returned b ((List.range n).map fun k => .thread (answers k))) ∧
      ∃ n, Until (step m) LoopEnded l ((List.range n).map fun k => .thread (answers k))) := by
  refine ⟨?_, fun answers haccepts =>
    ⟨(backup_returns hb).until_met _ fun _ => haccepts,
      (live_ends whole hl).until_met _ fun _ => haccepts⟩⟩
  intro backupAnswers liveAnswers returned ended viaBackup viaLive
  obtain ⟨ws, ⟨hempty, hfree⟩, hbackup⟩ := backup_queued hb returned
  have hlive := live_queued whole hl ended
  have hnil : C.drop off = [] ↔ off = C.length := by
    have := hl.inside
    rw [List.drop_eq_nil_iff]
    omega
  constructor
  · rintro ⟨hsame, -⟩
    have hentries := (entries_eq_iff hfree).mp (hbackup.symm.trans (hsame.trans hlive))
    have hno := (records_eq_nil_iff newline (C.drop off)).mp hentries.2
    exact hnil.mp ((terminated_of_not_mem hno).mp (terminated_drop whole off))
  · intro hoff
    have hdrop := hnil.mpr hoff
    have hb' : viaBackup = [] := by
      rw [hempty hdrop] at hbackup
      exact hbackup
    have hl' : viaLive = [] := by
      rw [hdrop] at hlive
      exact hlive
    refine ⟨hb'.trans hl'.symm, ?_⟩
    intro es hes
    have hnone : es = [] := by
      rw [List.eq_nil_iff_forall_not_mem]
      intro le hle
      rcases hes le hle with hin | hin
      · rw [hb'] at hin
        cases hin
      · rw [hl'] at hin
        cases hin
    rw [hnone]
    exact splitsBack_nil

/-- A poll from the state `s` up to the step behind its stat. -/
def behindStat (s : State) : State :=
  run (step (shortModel .cxx11)) s (List.replicate 3 (.thread (allWell 1)))

/-- At the end of the file both paths queue nothing. -/
theorem encodings_agree_atEnd :
    queuedSince (behindStat (started (twoFiles [97, newline] []) none 2 ⟨1, 2⟩ true))
        (run (step (shortModel .cxx11))
          (behindStat (started (twoFiles [97, newline] []) none 2 ⟨1, 2⟩ true))
          ((List.replicate 2 (allWell 1)).map .thread)) =
      queuedSince (behindStat (started (oneFile 7 [97, newline]) none 2 ⟨7, 2⟩ true))
        (run (step (shortModel .cxx11))
          (behindStat (started (oneFile 7 [97, newline]) none 2 ⟨7, 2⟩ true))
          ((List.replicate 2 (allWell 1)).map .thread)) := by
  have hb : AtBackup [97, newline] 2 1 2
      (behindStat (started (twoFiles [97, newline] []) none 2 ⟨1, 2⟩ true)) :=
    ⟨⟨rfl, by decide, by decide, rfl, rfl, rfl, by decide⟩, rfl⟩
  have hl : AtLive (shortModel .cxx11) [97, newline] 2 7
      (behindStat (started (oneFile 7 [97, newline]) none 2 ⟨7, 2⟩ true)) :=
    ⟨rfl, rfl, by decide, by decide, rfl, rfl, rfl, by decide, by decide⟩
  have hagree := (encodings_agree_iff (shortModel .cxx11) (by decide) hb hl).1
    (List.replicate 2 (allWell 1)) (List.replicate 2 (allWell 1))
    ⟨rfl, nofun, nofun, trivial⟩ ⟨rfl, nofun, nofun, trivial⟩
  exact (hagree.mpr rfl).1

/-- The line `a` leaves the live path with a newline, the backup path without. -/
theorem not_encodings_agree_line :
    AtBackup [97, newline] 0 1 2
        (behindStat (started (twoFiles [97, newline] []) none 0 ⟨1, 2⟩ true)) ∧
      AtLive (shortModel .cxx11) [97, newline] 0 7
        (behindStat (started (oneFile 7 [97, newline]) none 0 ⟨7, 2⟩ true)) ∧
      Until (step (shortModel .cxx11)) Returned
        (behindStat (started (twoFiles [97, newline] []) none 0 ⟨1, 2⟩ true))
        ((List.replicate 5 (allWell 1)).map .thread) ∧
      Until (step (shortModel .cxx11)) LoopEnded
        (behindStat (started (oneFile 7 [97, newline]) none 0 ⟨7, 2⟩ true))
        ((List.replicate 3 (allWell 1)).map .thread) ∧
      queuedSince (behindStat (started (twoFiles [97, newline] []) none 0 ⟨1, 2⟩ true))
        (run (step (shortModel .cxx11))
          (behindStat (started (twoFiles [97, newline] []) none 0 ⟨1, 2⟩ true))
          ((List.replicate 5 (allWell 1)).map .thread)) = [⟨[99], [61, 97]⟩] ∧
      queuedSince (behindStat (started (oneFile 7 [97, newline]) none 0 ⟨7, 2⟩ true))
        (run (step (shortModel .cxx11))
          (behindStat (started (oneFile 7 [97, newline]) none 0 ⟨7, 2⟩ true))
          ((List.replicate 3 (allWell 1)).map .thread)) = [⟨[99], [61, 97, newline]⟩] ∧
      ¬ SplitsBack [⟨[99], [61, 97]⟩] := by
  refine ⟨⟨⟨rfl, by decide, by decide, rfl, rfl, rfl, by decide⟩, rfl⟩,
    ⟨rfl, rfl, by decide, by decide, rfl, rfl, rfl, by decide, by decide⟩,
    ⟨rfl, nofun, nofun, nofun, nofun, nofun, trivial⟩, ⟨rfl, nofun, nofun, nofun, trivial⟩,
    by decide, by decide, ?_⟩
  rintro ⟨hterm, -⟩
  exact absurd hterm (by decide)

end ModelRead
