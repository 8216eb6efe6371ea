import Logtail.ModelRead

/-!
# What a step leaves alone

The thread never writes to the files it reads, the history only grows, and the
checkpoint file changes in `write_checkpoint` only. The two functions with a
reconnect loop are left at one place each.
-/

namespace ModelRead

open FileStream ScribeSend Transitions

/-- A step that touches neither the files nor the checkpoint and adds events
other than a rewritten checkpoint. -/
structure Frame (s s' : State) : Prop where
  fs : s'.fs = s.fs
  checkpoint : s'.checkpoint = s.checkpoint
  history : ∃ events, s'.history = s.history ++ events ∧ ∀ tTime, Event.rewritten tTime ∉ events
  pc : ∀ tTime writeInfo, s'.pc ≠ .writeCheckpoint (.writing tTime writeInfo)

theorem frame_of_eq {s s' : State} (hfs : s'.fs = s.fs) (hcheckpoint : s'.checkpoint = s.checkpoint)
    (hhistory : s'.history = s.history)
    (hpc : ∀ tTime writeInfo, s'.pc ≠ .writeCheckpoint (.writing tTime writeInfo)) :
    Frame s s' :=
  ⟨hfs, hcheckpoint, ⟨[], by simpa using hhistory, by simp⟩, hpc⟩

theorem frame_event {s s' : State} {e : Event} (hfs : s'.fs = s.fs)
    (hcheckpoint : s'.checkpoint = s.checkpoint) (hhistory : s'.history = s.history ++ [e])
    (he : ∀ tTime, e ≠ .rewritten tTime)
    (hpc : ∀ tTime writeInfo, s'.pc ≠ .writeCheckpoint (.writing tTime writeInfo)) :
    Frame s s' := by
  refine ⟨hfs, hcheckpoint, ⟨[e], hhistory, ?_⟩, hpc⟩
  intro tTime hmem
  exact he tTime (List.mem_singleton.mp hmem).symm

/-- Both send sites, whichever way `send` ends. -/
theorem frame_send (s : State) (ans : Answer) {s' : State} (hfs : s'.fs = s.fs)
    (hcheckpoint : s'.checkpoint = s.checkpoint) (hhistory : s'.history = (s.send ans).history)
    (hpc : ∀ tTime writeInfo, s'.pc ≠ .writeCheckpoint (.writing tTime writeInfo)) :
    Frame s s' := by
  refine ⟨hfs, hcheckpoint, ⟨_, hhistory, ?_⟩, hpc⟩
  intro tTime hmem
  cases ho : (s.scribeInter.send ans).2.2 with
  | none => simp [ho] at hmem
  | some outcome => simp [ho] at hmem

theorem frame_logtailFile (ans : Answer) (s : State) (place : LogtailPc) :
    Frame s (logtailFile ans s place) := by
  cases place with
  | polling => exact frame_of_eq rfl rfl rfl nofun
  | checking =>
    simp only [logtailFile]
    split <;> exact frame_of_eq rfl rfl rfl nofun
  | sending =>
    simp only [logtailFile]
    split <;> exact frame_send s ans rfl rfl rfl nofun
  | reopening => exact frame_event rfl rfl rfl nofun nofun
  | waiting tM allNum =>
    simp only [logtailFile]
    split
    · exact frame_of_eq rfl rfl rfl nofun
    · exact frame_event rfl rfl rfl nofun nofun

theorem frame_stillGood (m : Config) (s : State) (place : StillGoodPc) :
    Frame s (stillGood m s place) := by
  cases place with
  | opening sleepM =>
    simp only [stillGood]
    split <;> exact frame_of_eq rfl rfl rfl nofun
  | comparing =>
    simp only [stillGood]
    split <;> exact frame_of_eq rfl rfl rfl nofun
  | telling =>
    exact frame_of_eq (by simp [stillGood]) (by simp [stillGood]) (by simp [stillGood]) nofun

theorem frame_readBackupfile (m : Config) (ans : Answer) (s : State) (place : BackupPc) :
    Frame s (readBackupfile m ans s place) := by
  cases place with
  | opening =>
    simp only [readBackupfile]
    split <;> exact frame_of_eq rfl rfl rfl nofun
  | sizing ino =>
    simp only [readBackupfile]
    split <;> exact frame_of_eq rfl rfl rfl nofun
  | reading ino length => exact frame_of_eq rfl rfl rfl nofun
  | splitting lastmsg tM allNum =>
    simp only [readBackupfile]
    split
    · exact frame_of_eq rfl rfl rfl nofun
    · split <;> exact frame_event rfl rfl rfl nofun nofun
  | sending lastmsg tM allNum =>
    simp only [readBackupfile]
    split <;> exact frame_send s ans rfl rfl rfl nofun
  | reopening lastmsg tM allNum => exact frame_event rfl rfl rfl nofun nofun
  | waiting lastmsg tM allNum =>
    simp only [readBackupfile]
    split
    · exact frame_of_eq rfl rfl rfl nofun
    · exact frame_event rfl rfl rfl nofun nofun

theorem frame_readLogFile (m : Config) {s : State} {place : ReadPc}
    (hpc : s.pc = .readLogFile place) : Frame s (readLogFile m s place) := by
  cases place with
  | seeking => exact frame_of_eq rfl rfl rfl nofun
  | getline =>
    cases hf : s.logreadfile with
    | none =>
      simp only [readLogFile, hf]
      exact frame_of_eq rfl rfl rfl nofun
    | some f =>
      cases hget : f.getline (s.fs.file f.ino) with
      | mk temp f' =>
        cases temp with
        | none =>
          simp only [readLogFile, hf, hget]
          exact frame_of_eq rfl rfl rfl nofun
        | some temp =>
          simp only [readLogFile, hf, hget]
          split
          · exact frame_event (e := .queued (liveEntry m temp)) (by simp) (by simp) (by simp)
              nofun nofun
          · refine frame_event (e := .queued (liveEntry m temp)) (by simp) (by simp) (by simp)
              nofun ?_
            simp [hpc]
  | closing => exact frame_of_eq rfl rfl rfl nofun

/-- Outside `write_checkpoint` a step is framed. -/
theorem frame_thread (m : Config) (ans : Answer) {s : State}
    (hpc : ∀ place, s.pc ≠ .writeCheckpoint place) : Frame s (thread m ans s) := by
  apply thread_cases
  · exact fun place _ => frame_logtailFile ans s place
  · exact fun place _ => frame_stillGood m s place
  · exact fun place _ => frame_readBackupfile m ans s place
  · exact fun place hp => frame_readLogFile m hp
  · exact fun place hp => absurd hp (hpc place)

theorem logtailFile_stays (ans : Answer) (s : State) (place : LogtailPc) :
    (∃ place', (logtailFile ans s place).pc = .logtailFile place') ∨
      (logtailFile ans s place).pc = .stillGood (.opening 5) := by
  cases place with
  | polling => exact Or.inr rfl
  | checking =>
    left
    simp only [logtailFile]
    split <;> exact ⟨_, rfl⟩
  | sending =>
    left
    simp only [logtailFile]
    split <;> exact ⟨_, rfl⟩
  | reopening => exact Or.inl ⟨_, rfl⟩
  | waiting tM allNum =>
    left
    simp only [logtailFile]
    split <;> exact ⟨_, rfl⟩

theorem readBackupfile_stays (m : Config) (ans : Answer) (s : State) (place : BackupPc) :
    ((∃ place', (readBackupfile m ans s place).pc = .readBackupfile place') ∨
      (readBackupfile m ans s place).pc = .stillGood .telling) ∧
      (readBackupfile m ans s place).logreadfile = s.logreadfile := by
  cases place with
  | opening =>
    simp only [readBackupfile]
    split <;> simp
  | sizing ino =>
    simp only [readBackupfile]
    split <;> simp
  | reading ino length => simp [readBackupfile]
  | splitting lastmsg tM allNum =>
    simp only [readBackupfile]
    split
    · simp
    · split <;> simp
  | sending lastmsg tM allNum =>
    simp only [readBackupfile]
    split <;> simp
  | reopening lastmsg tM allNum => simp [readBackupfile]
  | waiting lastmsg tM allNum =>
    simp only [readBackupfile]
    split <;> simp

theorem readLogFile_stays (m : Config) {s : State} {place : ReadPc}
    (hpc : s.pc = .readLogFile place) :
    (∃ place', (readLogFile m s place).pc = .readLogFile place') ∨
      (readLogFile m s place).pc = .writeCheckpoint .timing ∨
      (readLogFile m s place).pc = .logtailFile .checking := by
  cases place with
  | seeking => exact Or.inl ⟨.getline, rfl⟩
  | getline =>
    simp only [readLogFile]
    split
    · exact Or.inr (Or.inl rfl)
    · split
      · exact Or.inr (Or.inl rfl)
      · split
        · exact Or.inr (Or.inl rfl)
        · exact Or.inl ⟨.getline, by simp [hpc]⟩
  | closing => exact Or.inr (Or.inr rfl)

theorem thread_fs (m : Config) (ans : Answer) (s : State) : (thread m ans s).fs = s.fs := by
  by_cases hpc : ∃ place, s.pc = .writeCheckpoint place
  · obtain ⟨place, hp⟩ := hpc
    rw [thread_writeCheckpoint m ans hp]
    cases place with
    | timing =>
      simp only [writeCheckpoint]
      split <;> rfl
    | writing tTime writeInfo => rfl
  · exact (frame_thread m ans (not_exists.mp hpc)).fs

theorem history_prefix_step (m : Config) (s : State) (a : Act) :
    s.history <+: (step m s a).history := by
  cases a with
  | external fs => exact List.prefix_refl _
  | thread ans =>
    by_cases hpc : ∃ place, s.pc = .writeCheckpoint place
    · obtain ⟨place, hp⟩ := hpc
      simp only [step, thread_writeCheckpoint m ans hp]
      cases place with
      | timing =>
        simp only [writeCheckpoint]
        split <;> exact List.prefix_refl _
      | writing tTime writeInfo => exact List.prefix_append _ _
    · obtain ⟨events, hevents, -⟩ := (frame_thread m ans (not_exists.mp hpc)).history
      exact ⟨events, hevents.symm⟩

theorem acked_prefix_step (m : Config) (s : State) (a : Act) :
    s.acked.flatten <+: (step m s a).acked.flatten := by
  obtain ⟨events, hevents⟩ := history_prefix_step m s a
  rw [State.acked, State.acked, ← hevents, ackedIn, ackedIn, List.filterMap_append,
    List.flatten_append]
  exact List.prefix_append _ _

theorem pushed_prefix_step (m : Config) (s : State) (a : Act) :
    s.pushed <+: (step m s a).pushed := by
  obtain ⟨events, hevents⟩ := history_prefix_step m s a
  rw [State.pushed, State.pushed, ← hevents, queuedIn, queuedIn, List.filterMap_append]
  exact List.prefix_append _ _

theorem pushed_prefix_run (m : Config) (s : State) (acts : List Act) :
    s.pushed <+: (run (step m) s acts).pushed := by
  induction acts generalizing s with
  | nil => exact List.prefix_refl _
  | cons a acts ih => exact (pushed_prefix_step m s a).trans (ih (step m s a))

/-- The messages pushed between the states `s` and `t` of a run. -/
def queuedSince (s t : State) : List LogEntry := t.pushed.drop s.pushed.length

/-- Only the thread moves. -/
def ThreadStep (_ : State) : Act → Prop
  | .thread _ => True
  | .external _ => False

theorem threadSteps_guarded (m : Config) (s : State) (answers : List Answer) :
    Guarded (step m) ThreadStep s (answers.map .thread) := by
  induction answers generalizing s with
  | nil => trivial
  | cons ans answers ih => exact ⟨trivial, ih (thread m ans s)⟩

end ModelRead
