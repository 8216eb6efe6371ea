import Logtail.Coverage
import Logtail.CrashSafety

/-!
# One log file, many lifetimes

A process is killed between two steps and started again with `-r`, as often as it
may happen, while whole lines are appended to the log file. A record that was written
with a pending batch is ahead of the server, and a start from it skips the pending
lines. A start that finds the record empty or cut off skips whatever the killed process
had not sent. Nothing else is skipped.
-/

namespace ModelRead

open Framing FileStream ScribeSend Checkpoint Transitions Coverage

/-- The processes of one model, one after the other. While none runs, `thread` is what
the last one has left. -/
structure Lives where
  config : Config
  running : Bool
  thread : State
  /-- what the earlier processes had acknowledged -/
  sent : List LogEntry
  /-- how much was pending when the present record was written -/
  risk : Nat
  /-- how much the starts have skipped, at most -/
  skipped : Nat

inductive LifeAct where
  | act (a : Act)
  | kill
  /-- a start with `-r` -/
  | start (config : Config) (garbage position : Int) (connected : Bool)

/-- The thread is about to write the record. -/
def writesRecord (s : State) : Bool :=
  match s.pc with
  | .writeCheckpoint (.writing _ _) => true
  | _ => false

/-- What a process has not sent yet: its batch and the unread lines of the log file. -/
def unsent (s : State) : Nat :=
  s.scribeInter.messages.length +
    match s.fs.path with
    | some ino => (records newline ((s.fs.file ino).drop s.position.toNat)).length
    | none => 0

/-- The process `s` has been started behind the one before. -/
def Lives.restarted (w : Lives) (config : Config) (s : State) : Lives where
  config := config
  running := true
  thread := s
  sent := w.sent ++ w.thread.acked.flatten
  risk := 0
  skipped := w.skipped +
    if (recordedPosition config w.thread.checkpoint).isSome then w.risk else unsent w.thread

/-- A start that fails leaves no process behind. -/
def lifeStep (w : Lives) : LifeAct → Lives
  | .act (.external fs) => { w with thread := step w.config w.thread (.external fs) }
  | .act (.thread ans) =>
    if w.running then
      { w with
        thread := step w.config w.thread (.thread ans)
        risk := if writesRecord w.thread then w.thread.scribeInter.messages.length else w.risk }
    else w
  | .kill => { w with running := false }
  | .start config garbage position connected =>
    if w.running then w
    else match restart config garbage position w.thread.fs w.thread.checkpoint connected with
      | some s => w.restarted config s
      | none => w

/-- Two configurations under which a line makes the same message. The limits and the
times may differ. -/
structure SameMessages (m m' : Config) : Prop where
  logPrefix : m'.logPrefix = m.logPrefix
  category : m'.category = m.category
  path : m'.path = m.path

/-- Whole lines are appended to a file whose offsets fit a `long long`, and the
configuration that a start loads makes the same messages as the first one. -/
def LifeRule (m : Config) (ino : Nat) (w : Lives) : LifeAct → Prop
  | .act (.thread _) => True
  | .act (.external fs) =>
    Appends (Terminated newline) ino w.thread (.external fs) ∧ (fs.file ino).length < 2 ^ 63
  | .kill => True
  | .start config _ _ _ => SameMessages m config

/-- The position `p` lies behind whole lines, of which all but `risk` are
acknowledged. -/
def RecordedAt (m : Config) (ino start risk : Nat) (s : State) (p : Int) : Prop :=
  ∃ part, part <+: (s.fs.file ino).drop start ∧ Terminated newline part ∧
    p = start + part.length ∧
      AllBut risk ((records newline part).map (liveEntry m)) s.acked.flatten

/-- A record of this path has a position with the property. -/
def RecordOf (m : Config) (P : Int → Prop) (checkpoint : Option Bytes) : Prop :=
  ∀ map, getcheckpoint checkpoint = some map → m.path = map.checkPath →
    ∃ p, stringToInt map.checkPosition = some p ∧ P p

/-- The invariant: `before` are the bytes in front of the last process, counted from the
start of the first one. -/
structure Surviving (m : Config) (ino first : Nat) (before : Bytes) (w : Lives) : Prop where
  same : SameMessages m w.config
  initial : before <+: (w.thread.fs.file ino).drop first
  complete : Terminated newline before
  covered : AllBut w.skipped ((records newline before).map (liveEntry m)) w.sent
  lined : Lined m ino (first + before.length) w.thread
  small : (w.thread.fs.file ino).length < 2 ^ 63
  balanced : Balanced w.thread
  writes : WritesPosition w.config w.thread
  record : RecordOf m (RecordedAt m ino (first + before.length) w.risk w.thread)
    w.thread.checkpoint

variable {m m' : Config} {ino first : Nat} {before : Bytes} {w : Lives}

theorem SameMessages.symm (h : SameMessages m m') : SameMessages m' m :=
  ⟨h.logPrefix.symm, h.category.symm, h.path.symm⟩

theorem SameMessages.liveEntry_eq (h : SameMessages m m') : liveEntry m' = liveEntry m := by
  funext line
  simp only [liveEntry, h.logPrefix, h.category]

/-- What is queued depends on what the messages are only. -/
theorem Lined.congr (same : SameMessages m m') {start : Nat} {s : State}
    (h : Lined m ino start s) : Lined m' ino start s := by
  obtain ⟨⟨hpath, consumed, rest, hr⟩, hlines⟩ := h
  refine ⟨⟨hpath, consumed, rest, hr.inside, hr.content, hr.complete, hr.position, ?_, hr.same,
    hr.grown, hr.place⟩, hlines⟩
  rw [same.liveEntry_eq, hr.pushed]

/-- The followed file only grows. -/
theorem file_prefix_step {s : State} {a : Act} (appends : Appends (Terminated newline) ino s a) :
    s.fs.file ino <+: (step m s a).fs.file ino := by
  cases a with
  | thread ans =>
    simp only [step, thread_fs]
    exact List.prefix_refl _
  | external fs =>
    obtain ⟨_, bytes, _, hfile⟩ := appends
    simp only [step, hfile]
    exact List.prefix_append _ _

theorem recordedAt_step {s : State} {a : Act} {start risk : Nat} {p : Int}
    (h : RecordedAt m ino start risk s p) (appends : Appends (Terminated newline) ino s a) :
    RecordedAt m ino start risk (step m' s a) p := by
  obtain ⟨part, hpart, hterm, hp, hacked⟩ := h
  refine ⟨part, hpart.trans ((file_prefix_step appends).drop start), hterm, hp, ?_⟩
  exact hacked.mono (acked_prefix_step m' s a).sublist

/-- A record that is being written: all but the pending batch is acknowledged. -/
theorem recordedAt_written {start : Nat} {s : State} (hlined : Lined m ino start s)
    (hbalanced : Balanced s) :
    RecordedAt m ino start s.scribeInter.messages.length s s.position := by
  obtain ⟨⟨_, consumed, rest, hr⟩, _⟩ := hlined
  refine ⟨consumed, ⟨rest, hr.content.symm⟩, hr.complete, hr.position, ?_⟩
  have hpushed := hr.pushed
  rw [(balanced_iff s).mp hbalanced, List.nil_append] at hpushed
  rw [← hpushed]
  exact allBut_pending _ _

theorem RecordOf.mono {P Q : Int → Prop} {checkpoint : Option Bytes}
    (h : RecordOf m P checkpoint) (imp : ∀ p, P p → Q p) : RecordOf m Q checkpoint := by
  intro map hmap hpath
  obtain ⟨p, hread, hp⟩ := h map hmap hpath
  exact ⟨p, hread, imp p hp⟩

theorem recordOf_none (m : Config) (P : Int → Prop) : RecordOf m P none := by
  intro map hmap
  cases hmap

/-- The record of this path has one position. -/
theorem RecordOf.position {P Q : Int → Prop} {checkpoint : Option Bytes} {p : Int}
    (h : RecordOf m P checkpoint) (path : m'.path = m.path)
    (hp : recordedPosition m' checkpoint = some p) (hq : Q p) : RecordOf m Q checkpoint := by
  intro map hmap hpath
  obtain ⟨p', hread, -⟩ := h map hmap hpath
  rw [recordedPosition_eq hmap, if_pos (path.trans hpath), hread] at hp
  obtain rfl := Option.some.inj hp
  exact ⟨p', hread, hq⟩

/-- A record that gives no position is of another path. -/
theorem RecordOf.foreign {P Q : Int → Prop} {checkpoint : Option Bytes} (h : RecordOf m P checkpoint)
    (path : m'.path = m.path) (hnone : recordedPosition m' checkpoint = none) :
    RecordOf m Q checkpoint := by
  intro map hmap hpath
  obtain ⟨p, hread, -⟩ := h map hmap hpath
  rw [recordedPosition_eq hmap, if_pos (path.trans hpath), hread] at hnone
  cases hnone

/-- An empty record names no path. -/
theorem recordOf_truncated (path : m.path ≠ []) (P : Int → Prop) : RecordOf m P (some []) := by
  intro map hmap hpath
  obtain rfl := Option.some.inj hmap
  exact absurd hpath path

theorem recordOf_checkpointLine {P : Int → Prop} {tTime p : Int} {path : Bytes} (hp : P p)
    (lo : 0 ≤ p) (hi : p < 2 ^ 63) : RecordOf m P (some (checkpointLine tTime p path)) := by
  intro map hmap _
  obtain rfl := Option.some.inj ((getcheckpoint_checkpointLine tTime p path).symm.trans hmap)
  refine ⟨p, ?_, hp⟩
  rw [stringToInt_print, clamp_of_bounds (by omega) hi]

/-- A start finds the position of a record of this path, or goes to the end of the file. -/
theorem RecordOf.restarted {P : Int → Prop} {fs : Fs} {checkpoint : Option Bytes}
    (record : RecordOf m P checkpoint) (path : m'.path = m.path) (hfile : fs.path = some ino)
    {garbage position : Int} {connected : Bool} {s : State}
    (h : restart m' garbage position fs checkpoint connected = some s) :
    ∃ q, s = started fs checkpoint q ⟨ino, (fs.file ino).length⟩ connected ∧
      ((∃ p, recordedPosition m' checkpoint = some p ∧ P p ∧ q = min p (fs.file ino).length) ∨
        (recordedPosition m' checkpoint = none ∧ q = (fs.file ino).length)) := by
  obtain ⟨map, hmap, -⟩ := Option.bind_eq_some_iff.mp h
  rw [restart_eq_started hmap hfile] at h
  refine ⟨_, (Option.some.inj h).symm, ?_⟩
  rw [recordedPosition_eq hmap]
  by_cases hpath : m'.path = map.checkPath
  · obtain ⟨p, hread, hp⟩ := record map hmap (path.symm.trans hpath)
    left
    rw [if_pos hpath, if_pos hpath, hread]
    exact ⟨p, rfl, hp, rfl⟩
  · right
    rw [if_neg hpath, if_neg hpath]
    exact ⟨rfl, rfl⟩

/-- Without a record there is no start. -/
theorem isSome_of_restart {fs : Fs} {checkpoint : Option Bytes} {garbage position : Int}
    {connected : Bool} {s : State}
    (h : restart m' garbage position fs checkpoint connected = some s) : checkpoint.isSome := by
  cases checkpoint with
  | none => cases h
  | some content => rfl

theorem writesRecord_iff {s : State} :
    writesRecord s = true ↔
      ∃ tTime writeInfo, s.pc = .writeCheckpoint (.writing tTime writeInfo) := by
  unfold writesRecord
  split
  · rename_i tTime writeInfo hpc
    exact ⟨fun _ => ⟨tTime, writeInfo, hpc⟩, fun _ => rfl⟩
  · rename_i hpc
    exact ⟨nofun, fun ⟨tTime, writeInfo, hp⟩ => absurd hp (hpc tTime writeInfo)⟩

/-- A step of the thread or of another process, with what it makes of the record. -/
theorem surviving_act (h : Surviving m ino first before w) {a : Act} {risk : Nat}
    (appends : Appends (Terminated newline) ino w.thread a)
    (small : ((step w.config w.thread a).fs.file ino).length < 2 ^ 63)
    (record : RecordOf m (RecordedAt m ino (first + before.length) risk (step w.config w.thread a))
      (step w.config w.thread a).checkpoint) :
    Surviving m ino first before
      { w with thread := step w.config w.thread a, risk := risk } where
  same := h.same
  initial := h.initial.trans ((file_prefix_step appends).drop first)
  complete := h.complete
  covered := h.covered
  lined := (lined_step (h.lined.congr h.same) appends).congr h.same.symm
  small := small
  balanced := balanced_step w.config h.balanced a
  writes := writesPosition_step h.writes
  record := record

theorem surviving_external (h : Surviving m ino first before w) {fs : Fs}
    (rule : LifeRule m ino w (.act (.external fs))) :
    Surviving m ino first before (lifeStep w (.act (.external fs))) :=
  surviving_act h rule.1 rule.2 (h.record.mono fun _ hp => recordedAt_step hp rule.1)

theorem surviving_thread (path : m.path ≠ []) (h : Surviving m ino first before w) (ans : Answer) :
    Surviving m ino first before (lifeStep w (.act (.thread ans))) := by
  have hkept : ∀ {risk : Nat} {p : Int}, RecordedAt m ino (first + before.length) risk w.thread p →
      RecordedAt m ino (first + before.length) risk (step w.config w.thread (.thread ans)) p :=
    fun hp => recordedAt_step hp trivial
  simp only [lifeStep]
  split
  · refine surviving_act h trivial ?_ ?_
    · rw [step, thread_fs]
      exact h.small
    rcases record_step ans h.writes with ⟨⟨hpc, -⟩, hrecord⟩ |
      ⟨tTime, writeInfo, hpc, hrecord⟩ | ⟨⟨-, hpc⟩, hrecord⟩
    · rw [step, hrecord]
      exact recordOf_truncated path _
    · obtain ⟨_, _, hr⟩ := h.lined.1.2
      have hinside := hr.inFile
      have hsmall := h.small
      rw [if_pos (writesRecord_iff.mpr ⟨tTime, writeInfo, hpc⟩), step, hrecord]
      exact recordOf_checkpointLine (hkept (recordedAt_written h.lined h.balanced)) hinside.1
        (by have := hinside.2; omega)
    · have hwrites : ¬ writesRecord w.thread := by
        intro hwrites
        obtain ⟨tTime, writeInfo, hp⟩ := writesRecord_iff.mp hwrites
        exact hpc tTime writeInfo hp
      rw [if_neg hwrites, step, hrecord]
      exact h.record.mono fun _ hp => hkept hp
  · exact h

/-- A kill leaves the files as they are. -/
theorem surviving_kill (h : Surviving m ino first before w) :
    Surviving m ino first before (lifeStep w .kill) :=
  ⟨h.same, h.initial, h.complete, h.covered, h.lined, h.small, h.balanced, h.writes, h.record⟩

/-- A start brings a process about or leaves everything as it is. -/
theorem lifeStep_start (w : Lives) (config : Config) (garbage position : Int) (connected : Bool) :
    lifeStep w (.start config garbage position connected) = w ∨
      ∃ s, restart config garbage position w.thread.fs w.thread.checkpoint connected = some s ∧
        lifeStep w (.start config garbage position connected) = w.restarted config s := by
  simp only [lifeStep]
  split
  · exact Or.inl rfl
  · split
    · rename_i s hs
      exact Or.inr ⟨s, hs, rfl⟩
    · exact Or.inl rfl

/-- A started process goes on behind `part`, of which the earlier ones had sent all but what
the start skips. -/
theorem surviving_restarted (h : Surviving m ino first before w) {config : Config} {part : Bytes}
    (same : SameMessages m config)
    (hpart : part <+: (w.thread.fs.file ino).drop (first + before.length))
    (hterm : Terminated newline part)
    (hacked : AllBut (if (recordedPosition config w.thread.checkpoint).isSome then w.risk
        else unsent w.thread)
      ((records newline part).map (liveEntry m)) w.thread.acked.flatten)
    (connected : Bool)
    (record : RecordOf m (· = (first + (before ++ part).length : Nat)) w.thread.checkpoint) :
    Surviving m ino first (before ++ part)
      (w.restarted config (started w.thread.fs w.thread.checkpoint
        (first + (before ++ part).length : Nat) ⟨ino, (w.thread.fs.file ino).length⟩
        connected)) where
  same := same
  initial := by
    obtain ⟨behind, hbehind⟩ := h.initial
    have hdrop : (w.thread.fs.file ino).drop (first + before.length) = behind := by
      rw [← List.drop_drop, ← hbehind, List.drop_left]
    rw [hdrop] at hpart
    obtain ⟨rest, rfl⟩ := hpart
    exact ⟨rest, by rw [List.append_assoc]; exact hbehind⟩
  complete := (terminated_append h.complete).mpr hterm
  covered := by
    rw [Framing.records_append h.complete, List.map_append]
    exact h.covered.append hacked
  lined := by
    have hlen := hpart.length_le
    obtain ⟨_, _, hr⟩ := h.lined.1.2
    have hinside := hr.inside
    rw [List.length_drop] at hlen
    refine lined_started m ⟨h.lined.1.1, ?_, Nat.le_refl _⟩ h.lined.2 _ _
    rw [List.length_append]
    omega
  small := h.small
  balanced := balanced_started _ _ _ _ _
  writes := nofun
  record := by
    refine record.mono ?_
    rintro p rfl
    exact ⟨[], List.nil_prefix, terminated_nil _, by simp, AllBut.nil _⟩

theorem Reading.unsent_eq {start : Nat} {consumed rest : Bytes} {s : State}
    (h : Reading m [] ino start consumed rest s) (hpath : s.fs.path = some ino) :
    unsent s = s.scribeInter.messages.length + (records newline rest).length := by
  rw [unsent, hpath]
  simp only [h.toNat_position, h.drop_position]

/-- All but the unsent lines of the file are acknowledged. -/
theorem allBut_unsent {start : Nat} {s : State} (hlined : Lined m ino start s)
    (hbalanced : Balanced s) :
    AllBut (unsent s) ((records newline ((s.fs.file ino).drop start)).map (liveEntry m))
      s.acked.flatten := by
  obtain ⟨⟨hpath, consumed, rest, hr⟩, _⟩ := hlined
  have hpushed := hr.pushed
  rw [(balanced_iff s).mp hbalanced, List.nil_append] at hpushed
  have hunread : AllBut (records newline rest).length ((records newline rest).map (liveEntry m))
      [] := by
    refine ⟨[], List.nil_sublist _, List.Sublist.refl _, ?_⟩
    simp
  have hall := (allBut_pending s.acked.flatten s.scribeInter.messages).append hunread
  rw [hpushed, List.append_nil] at hall
  rw [hr.unsent_eq hpath, hr.records_append, List.map_append]
  exact hall

theorem surviving_start (h : Surviving m ino first before w)
    (config : Config) (garbage position : Int) (connected : Bool)
    (same : SameMessages m config) :
    ∃ before', Surviving m ino first before'
      (lifeStep w (.start config garbage position connected)) := by
  rcases lifeStep_start w config garbage position connected with hw | ⟨s, hs, hw⟩
  · rw [hw]
    exact ⟨before, h⟩
  rw [hw]
  obtain ⟨_, _, hr⟩ := h.lined.1.2
  have hinside := hr.inside
  obtain ⟨q, rfl, ⟨p, hrecorded, ⟨part, hpart, hterm, rfl, hacked⟩, hq⟩ | ⟨hnone, hq⟩⟩ :=
    h.record.restarted same.path h.lined.1.1 hs
  · -- the earlier processes had sent all but the batch of then
    have hlen := hpart.length_le
    rw [List.length_drop] at hlen
    have hposition : q = ((first + (before ++ part).length : Nat) : Int) := by
      rw [List.length_append]
      omega
    refine ⟨before ++ part, ?_⟩
    rw [hposition]
    refine surviving_restarted h same hpart hterm ?_ connected ?_
    · rw [hrecorded, Option.isSome_some, if_pos rfl]
      exact hacked
    · refine h.record.position same.path hrecorded ?_
      rw [List.length_append]
      omega
  · -- whatever they had not sent is skipped
    have hposition : q =
        ((first + (before ++ (w.thread.fs.file ino).drop (first + before.length)).length : Nat) :
          Int) := by
      rw [hq, List.length_append, List.length_drop]
      omega
    refine ⟨before ++ (w.thread.fs.file ino).drop (first + before.length), ?_⟩
    rw [hposition]
    refine surviving_restarted h same (List.prefix_refl _)
      (terminated_drop h.lined.2 (first + before.length)) ?_ connected ?_
    · rw [hnone]
      exact allBut_unsent h.lined h.balanced
    · exact h.record.foreign same.path hnone

theorem surviving_step (path : m.path ≠ []) (h : ∃ before, Surviving m ino first before w)
    (a : LifeAct) (rule : LifeRule m ino w a) :
    ∃ before, Surviving m ino first before (lifeStep w a) := by
  obtain ⟨before, h⟩ := h
  cases a with
  | act a =>
    cases a with
    | thread ans => exact ⟨before, surviving_thread path h ans⟩
    | external fs => exact ⟨before, surviving_external h rule⟩
  | kill => exact ⟨before, surviving_kill h⟩
  | start config garbage position connected =>
    exact surviving_start h config garbage position connected rule

/-- What a run of lives shows of the lines in front of the read position: all but
the skipped ones were acknowledged in some life, or wait in the batch. -/
def CoversLines (m : Config) (ino first : Nat) (w : Lives) : Prop :=
  ∃ front, front <+: (w.thread.fs.file ino).drop first ∧ Terminated newline front ∧
    w.thread.position = first + front.length ∧
      AllBut w.skipped ((records newline front).map (liveEntry m)) (w.sent ++ w.thread.pushed)

theorem Surviving.coversLines (h : Surviving m ino first before w) : CoversLines m ino first w := by
  obtain ⟨⟨_, consumed, rest, hr⟩, _⟩ := h.lined
  obtain ⟨behind, hbehind⟩ := h.initial
  have hdrop : (w.thread.fs.file ino).drop (first + before.length) = behind := by
    rw [← List.drop_drop, ← hbehind, List.drop_left]
  have hcontent : behind = consumed ++ rest := hdrop.symm.trans hr.content
  refine ⟨before ++ consumed, ?_, (terminated_append h.complete).mpr hr.complete, ?_, ?_⟩
  · exact ⟨rest, by rw [List.append_assoc, ← hcontent]; exact hbehind⟩
  · have hposition := hr.position
    rw [hposition, List.length_append]
    omega
  · have hqueued : AllBut 0 ((records newline consumed).map (liveEntry m)) w.thread.pushed := by
      rw [hr.pushed, List.nil_append]
      exact allBut_zero_iff.mpr (List.Sublist.refl _)
    rw [Framing.records_append h.complete, List.map_append]
    exact h.covered.append hqueued

/-- The first process. -/
def Lives.started (config : Config) (fs : Fs) (checkpoint : Option Bytes) (position : Int)
    (oStat : Stat) (connected : Bool) : Lives where
  config := config
  running := true
  thread := ModelRead.started fs checkpoint position oStat connected
  sent := []
  risk := 0
  skipped := 0

theorem surviving_started (m : Config) {fs : Fs} {ino first size : Nat}
    (opened : Opened fs ino first size) (lines : Terminated newline (fs.file ino))
    (small : (fs.file ino).length < 2 ^ 63) {checkpoint : Option Bytes}
    (old : RecordOf m (· = first) checkpoint) (connected : Bool) :
    Surviving m ino first [] (Lives.started m fs checkpoint first ⟨ino, size⟩ connected) where
  same := ⟨rfl, rfl, rfl⟩
  initial := List.nil_prefix
  complete := terminated_nil _
  covered := AllBut.nil _
  lined := lined_started m opened lines checkpoint connected
  small := small
  balanced := balanced_started _ _ _ _ _
  writes := nofun
  record := by
    refine old.mono ?_
    rintro p rfl
    exact ⟨[], List.nil_prefix, terminated_nil _, by simp, AllBut.nil _⟩

/-- For every log file of whole lines, every sequence of server replies, appends, kills
at any point and starts with `-r` from whatever the record file holds then: all lines in
front of the read position, in their order, were acknowledged in some life or wait in the
batch, except at most the skipped ones. These are, for each start, the lines that were
pending when the record was written or, if it is empty, those that were unsent. -/
theorem coversLines_lives (m : Config) (path : m.path ≠ []) {fs : Fs} {ino first size : Nat}
    (opened : Opened fs ino first size) (lines : Terminated newline (fs.file ino))
    (small : (fs.file ino).length < 2 ^ 63) {checkpoint : Option Bytes}
    (old : RecordOf m (· = first) checkpoint) (connected : Bool) {acts : List LifeAct}
    (rule : Guarded lifeStep (LifeRule m ino)
      (Lives.started m fs checkpoint first ⟨ino, size⟩ connected) acts) :
    Always lifeStep (CoversLines m ino first)
      (Lives.started m fs checkpoint first ⟨ino, size⟩ connected) acts := by
  apply always_mono (P := fun w => ∃ before, Surviving m ino first before w)
  · rintro w ⟨before, h⟩
    exact h.coversLines
  · exact invariant_always (fun _ a h ha => surviving_step path h a ha)
      ⟨_, surviving_started m opened lines small old connected⟩ rule

/-- The model with another limit and another time. -/
def reloadedModel : Config := { shortModel .cxx11 with maxSendMsg := 1, now := 9 }

/-- Two kills: one behind a record that was written with the line `a` pending, one behind
the truncation of the next record, when the line `b` has come. -/
def killedLife : List LifeAct :=
  List.replicate 8 (.act (.thread (allWell 0))) ++
    [.kill, .start reloadedModel 0 0 true,
      .act (.external (oneFile 7 [97, newline, 98, newline]))] ++
    List.replicate 7 (.act (.thread (allWell 9))) ++
    [.kill, .start (shortModel .cxx11) 0 0 true]

theorem coversLines_killedLife :
    let w := run lifeStep
      (Lives.started (shortModel .cxx11) (oneFile 7 [97, newline]) none 0 ⟨7, 2⟩ true) killedLife
    w.skipped = 2 ∧ w.thread.position = 4 ∧ CoversLines (shortModel .cxx11) 7 0 w := by
  refine ⟨by decide, by decide, always_last (coversLines_lives (shortModel .cxx11) (by decide)
    ⟨rfl, Nat.zero_le _, by decide⟩ (by decide) (by decide) (recordOf_none _ _) true ?_)⟩
  exact ⟨trivial, trivial, trivial, trivial, trivial, trivial, trivial, trivial, trivial,
    ⟨rfl, rfl, rfl⟩, ⟨⟨rfl, [98, newline], by decide, rfl⟩, by decide⟩, trivial, trivial, trivial,
    trivial, trivial, trivial, trivial, trivial, ⟨rfl, rfl, rfl⟩, trivial⟩

/-- Whenever a process opens the record for writing, everything is sent; and nothing is
appended while the record gives no position. -/
def RecordsSafely (ino : Nat) (w : Lives) : LifeAct → Prop
  | .act (.thread ans) => w.running → RewrittenSafely w.config ino w.thread (.thread ans)
  | .act (.external fs) => RewrittenSafely w.config ino w.thread (.external fs)
  | .kill => True
  | .start _ _ _ _ => True

/-- The invariant of the runs in which no start skips anything. -/
structure Unskipped (m : Config) (ino first : Nat) (before : Bytes) (w : Lives) : Prop where
  surviving : Surviving m ino first before w
  truncated : Truncated w.thread
  risk : w.risk = 0
  skipped : w.skipped = 0
  ended : Dangling w.config w.thread.checkpoint →
    w.thread.scribeInter.messages = [] ∧ w.thread.position = (w.thread.fs.file ino).length

/-- What is sent up to the end of the file stays so until something is appended. -/
theorem Surviving.ended_step (h : Surviving m ino first before w) {a : Act}
    (h' : Surviving m ino first before (lifeStep w (.act a)))
    (appends : Appends (Terminated newline) ino w.thread a)
    (hthread : (lifeStep w (.act a)).thread = step w.config w.thread a)
    (hsame : (step w.config w.thread a).fs.file ino = w.thread.fs.file ino)
    (hend : w.thread.scribeInter.messages = [] ∧
      w.thread.position = (w.thread.fs.file ino).length) :
    (step w.config w.thread a).scribeInter.messages = [] ∧
      (step w.config w.thread a).position = ((step w.config w.thread a).fs.file ino).length := by
  obtain ⟨_, _, hr⟩ := h.lined.1.2
  have hlined := h'.lined
  have hbalanced := h'.balanced
  rw [hthread] at hlined hbalanced
  have hacked := (ackedTo_length_iff h.lined h.balanced).mpr hend
  apply (ackedTo_length_iff hlined hbalanced).mp
  rw [hsame]
  exact ackedTo_step hacked hr.inside appends

theorem unskipped_external (h : Unskipped m ino first before w) {fs : Fs}
    (rule : LifeRule m ino w (.act (.external fs)))
    (safely : RecordsSafely ino w (.act (.external fs))) :
    Unskipped m ino first before (lifeStep w (.act (.external fs))) where
  surviving := surviving_external h.surviving rule
  truncated := h.truncated
  risk := h.risk
  skipped := h.skipped
  ended hdangling := h.surviving.ended_step (surviving_external h.surviving rule) rule.1 rfl
    (safely hdangling) (h.ended hdangling)

theorem unskipped_thread (path : m.path ≠ []) (h : Unskipped m ino first before w) {ans : Answer}
    (safely : RecordsSafely ino w (.act (.thread ans))) :
    Unskipped m ino first before (lifeStep w (.act (.thread ans))) := by
  have hsurviving := surviving_thread path h.surviving ans
  by_cases hrunning : w.running
  swap
  · simpa only [lifeStep, if_neg hrunning] using h
  have hthread :
      (lifeStep w (.act (.thread ans))).thread = step w.config w.thread (.thread ans) := by
    simp only [lifeStep, if_pos hrunning]
  have hempty : writesRecord w.thread → w.thread.scribeInter.messages = [] := by
    intro hwrites
    obtain ⟨tTime, writeInfo, hpc⟩ := writesRecord_iff.mp hwrites
    have hrecord := h.truncated tTime writeInfo hpc
    exact (h.ended (hrecord ▸ dangling_truncated w.config)).1
  refine ⟨hsurviving, ?_, ?_, ?_, ?_⟩
  · rw [hthread]
    exact truncated_step h.truncated
  · simp only [lifeStep, if_pos hrunning]
    split
    · rename_i hwrites
      rw [hempty hwrites, List.length_nil]
    · exact h.risk
  · simp only [lifeStep, if_pos hrunning]
    exact h.skipped
  · -- a record that gives no position afterwards was opened, or gave none before
    intro hdangling
    rw [hthread]
    refine h.surviving.ended_step hsurviving trivial hthread (by simp only [step, thread_fs]) ?_
    simp only [lifeStep, if_pos hrunning, step] at hdangling
    rcases record_step ans h.surviving.writes with ⟨htruncates, -⟩ |
      ⟨tTime, writeInfo, hpc, -⟩ | ⟨-, hrecord⟩
    · exact safely hrunning htruncates
    · exact h.ended (h.truncated tTime writeInfo hpc ▸ dangling_truncated w.config)
    · rw [hrecord] at hdangling
      exact h.ended hdangling

theorem unskipped_start (h : Unskipped m ino first before w) (config : Config)
    (garbage position : Int) (connected : Bool) (same : SameMessages m config) :
    ∃ before', Unskipped m ino first before'
      (lifeStep w (.start config garbage position connected)) := by
  obtain ⟨before', hsurviving⟩ :=
    surviving_start h.surviving config garbage position connected same
  refine ⟨before', ?_⟩
  rcases lifeStep_start w config garbage position connected with hw | ⟨s, hs, hw⟩
  · rw [hw] at hsurviving ⊢
    exact ⟨hsurviving, h.truncated, h.risk, h.skipped, h.ended⟩
  rw [hw] at hsurviving ⊢
  have hfile := h.surviving.lined.1.1
  have hpath : config.path = w.config.path := same.path.trans h.surviving.same.path.symm
  have hsome : w.thread.checkpoint.isSome := isSome_of_restart hs
  obtain ⟨q, rfl, hstart⟩ := h.surviving.record.restarted same.path hfile hs
  refine ⟨hsurviving, nofun, rfl, ?_, ?_⟩
  · simp only [Lives.restarted, h.skipped, Nat.zero_add]
    rcases hstart with ⟨p, hrecorded, -⟩ | ⟨hnone, -⟩
    · simpa [hrecorded] using h.risk
    · have hend := hnone
      rw [recordedPosition_congr hpath] at hend
      obtain ⟨hempty, hposition⟩ := h.ended ⟨hsome, hend⟩
      simp [hnone, unsent, hfile, hempty, hposition]
  · rintro ⟨-, hnone⟩
    refine ⟨rfl, ?_⟩
    rcases hstart with ⟨p, hrecorded, -⟩ | ⟨-, hq⟩
    · exact absurd (hrecorded.symm.trans hnone) nofun
    · exact hq

theorem unskipped_step (path : m.path ≠ []) (h : ∃ before, Unskipped m ino first before w)
    (a : LifeAct) (rule : LifeRule m ino w a) (safely : RecordsSafely ino w a) :
    ∃ before, Unskipped m ino first before (lifeStep w a) := by
  obtain ⟨before, h⟩ := h
  cases a with
  | act a =>
    cases a with
    | thread ans => exact ⟨before, unskipped_thread path h safely⟩
    | external fs => exact ⟨before, unskipped_external h rule safely⟩
  | kill =>
    exact ⟨before, surviving_kill h.surviving, h.truncated, h.risk, h.skipped, h.ended⟩
  | start config garbage position connected =>
    exact unskipped_start h config garbage position connected rule

/-- Every line in front of the read position, in its order, was acknowledged in some
life or waits in the batch. -/
def KeepsLines (m : Config) (ino first : Nat) (w : Lives) : Prop :=
  ∃ front, front <+: (w.thread.fs.file ino).drop first ∧ Terminated newline front ∧
    w.thread.position = first + front.length ∧
      ((records newline front).map (liveEntry m)).Sublist (w.sent ++ w.thread.pushed)

/-- When everything is sent whenever the record is opened for writing, and nothing is
appended while it gives no position, no number of kills at any point and starts with `-r`
loses a line. -/
theorem keepsLines_lives (m : Config) (path : m.path ≠ []) {fs : Fs} {ino first size : Nat}
    (opened : Opened fs ino first size) (lines : Terminated newline (fs.file ino))
    (small : (fs.file ino).length < 2 ^ 63) {checkpoint : Option Bytes}
    (old : RecordOf m (· = first) checkpoint)
    (ended : Dangling m checkpoint → first = (fs.file ino).length) (connected : Bool)
    {acts : List LifeAct}
    (rule : Guarded lifeStep (LifeRule m ino)
      (Lives.started m fs checkpoint first ⟨ino, size⟩ connected) acts)
    (safely : Guarded lifeStep (RecordsSafely ino)
      (Lives.started m fs checkpoint first ⟨ino, size⟩ connected) acts) :
    Always lifeStep (KeepsLines m ino first)
      (Lives.started m fs checkpoint first ⟨ino, size⟩ connected) acts := by
  apply always_mono (P := fun w => ∃ before, Unskipped m ino first before w)
  · rintro w ⟨before, h⟩
    obtain ⟨front, hfront, hterm, hposition, hall⟩ := h.surviving.coversLines
    rw [h.skipped] at hall
    exact ⟨front, hfront, hterm, hposition, allBut_zero_iff.mp hall⟩
  · refine invariant_always (fun _ a h ha => unskipped_step path h a ha.1 ha.2) ?_
      (guarded_and rule safely)
    refine ⟨[], surviving_started m opened lines small old connected, nofun, rfl, rfl, ?_⟩
    exact fun hdangling => ⟨rfl, congrArg Nat.cast (ended hdangling)⟩

/-- An idle poll opens the record, and the process is killed behind that; the next one is
killed behind a whole record. -/
def idleLife : List LifeAct :=
  List.replicate 6 (.act (.thread (allWell 0))) ++ [.kill, .start reloadedModel 0 0 true] ++
    List.replicate 7 (.act (.thread (allWell 9))) ++
    [.kill, .act (.external (oneFile 7 [97, newline, 98, newline])),
      .start (shortModel .cxx11) 0 0 true]

theorem keepsLines_idleLife :
    let w := run lifeStep
      (Lives.started (shortModel .cxx11) (oneFile 7 [97, newline]) none 2 ⟨7, 2⟩ true) idleLife
    w.thread.position = 2 ∧ KeepsLines (shortModel .cxx11) 7 2 w := by
  refine ⟨by decide, always_last (keepsLines_lives (shortModel .cxx11) (by decide)
    ⟨rfl, by decide, by decide⟩ (by decide) (by decide) (recordOf_none _ _) nofun true ?_ ?_)⟩
  · exact ⟨trivial, trivial, trivial, trivial, trivial, trivial, trivial, ⟨rfl, rfl, rfl⟩, trivial,
      trivial, trivial, trivial, trivial, trivial, trivial, trivial,
      ⟨⟨rfl, [98, newline], by decide, rfl⟩, by decide⟩, ⟨rfl, rfl, rfl⟩, trivial⟩
  · refine ⟨fun _ _ => ⟨rfl, rfl⟩, fun _ _ => ⟨rfl, rfl⟩, fun _ _ => ⟨rfl, rfl⟩,
      fun _ _ => ⟨rfl, rfl⟩, fun _ _ => ⟨rfl, rfl⟩, fun _ _ => ⟨rfl, rfl⟩, trivial, trivial,
      fun _ _ => ⟨rfl, rfl⟩, fun _ _ => ⟨rfl, rfl⟩, fun _ _ => ⟨rfl, rfl⟩, fun _ _ => ⟨rfl, rfl⟩,
      fun _ _ => ⟨rfl, rfl⟩, fun _ _ => ⟨rfl, rfl⟩, fun _ _ => ⟨rfl, rfl⟩, trivial, ?_, trivial,
      trivial⟩
    rintro ⟨-, hnone⟩
    exact absurd hnone (by decide)

end ModelRead
