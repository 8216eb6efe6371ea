import Logtail.Lifetimes
import Logtail.Launch
import Logtail.Simulation

/-!
# All threads of one process

`main` starts a thread for each model. The threads share the directory of the
records and their process: a kill ends them all, and so does a thread that divides by
a `checkpoint_time` of zero. A start with `-r` reads the config file and the records
again. Each model sees of this what it would see alone, as long as no two models have
one record file.
-/

namespace ModelRead

open Framing FileStream ScribeSend Checkpoint Conf Transitions Simulation

/-- `/` -/
def slash : UInt8 := 47

/-- A run of slashes counts as one. -/
def singleSlashes : Bytes → Bytes
  | [] => []
  | b :: rest =>
    if b = slash ∧ rest.head? = some slash then singleSlashes rest else b :: singleSlashes rest

/-- A file name as the system takes it: it ends at the first NUL. -/
def systemName (name : Bytes) : Bytes := singleSlashes (name.takeWhile (· ≠ nul))

/-- The threads, by the name of their model, and the files of the directory `checkpoint`,
by the name that the system takes. Once `alive` is false nothing runs. -/
structure Process where
  threads : Bytes → Option Running
  directory : Bytes → Option Bytes
  alive : Bool

/-- A start in the world `w`: when it happens for each thread, and which connections
come about. -/
structure Launch where
  w : World
  garbage : String → Int
  filename : Bytes
  now : Bytes → Int
  connected : Bytes → Bool

/-- `main`: the threads of the models whose log file can be opened. Where `main` is
undefined nothing runs. -/
def Launch.process (mode : Mode) (l : Launch) : Process where
  threads name :=
    (main mode l.garbage l.w l.filename).bind fun rs =>
      (rs.find? (·.modelname = name)).bind (start l.garbage l.w (l.now name) (l.connected name))
  directory := l.w.read
  alive := true

inductive ProcessAct where
  /-- a step of the thread of this model -/
  | thread (name : Bytes) (ans : Answer)
  /-- other processes change the log files -/
  | external (w : World)
  /-- the process is killed, if it still runs, and started with `-r` -/
  | restart (l : Launch)

/-- The thread is about to compute `pass_time%checkpoint_time` with a zero. -/
def Running.divides (t : Running) : Bool :=
  match t.state.pc with
  | .writeCheckpoint .timing => t.config.checkpointTime == 0
  | _ => false

/-- What comes of the turn of a thread. -/
inductive Move where
  | none
  /-- the division by zero ends the process -/
  | ends
  | step (t : Running)

namespace Process

/-- The record of a model. -/
def record (p : Process) (modelname : Bytes) : Option Bytes :=
  p.directory (systemName (writtenName modelname))

/-- The state of a thread, with its record as the directory has it. -/
def view (p : Process) (t : Running) : State :=
  { t.state with checkpoint := p.record t.model.modelname }

def next (p : Process) (name : Bytes) : Move :=
  match p.threads name with
  | some t => if p.alive then if t.divides then .ends else .step t else .none
  | none => .none

def ended (p : Process) : Process := { p with alive := false }

/-- A step of one thread, and what it writes to the directory. -/
def turn (p : Process) (name : Bytes) (t : Running) (ans : Answer) : Process :=
  let s := step t.config (p.view t) (.thread ans)
  { p with
    threads := Function.update p.threads name (some { t with state := s })
    directory :=
      Function.update p.directory (systemName (writtenName t.model.modelname)) s.checkpoint }

end Process

def processStep (p : Process) : ProcessAct → Process
  | .thread name ans =>
    match p.next name with
    | .none => p
    | .ends => p.ended
    | .step t => p.turn name t ans
  | .external w =>
    { p with threads := fun name => (p.threads name).map fun t =>
        { t with state := step t.config t.state (.external (w.fs t.model.members)) } }
  | .restart l => l.process .r

/-- What the model `name` sees of an action. -/
def seen (name : Bytes) (p : Process) : ProcessAct → List LifeAct
  | .thread name' ans =>
    match p.next name' with
    | .none => []
    | .ends => [.kill]
    | .step _ => if name' = name then [.act (.thread ans)] else []
  | .external w =>
    match p.threads name with
    | some t => [.act (.external (w.fs t.model.members))]
    | none => []
  | .restart l =>
    match (l.process .r).threads name with
    | some t =>
      [.act (.external (l.w.fs t.model.members)), .kill,
        .start t.config (l.garbage "check_position") (l.garbage "position") (l.connected name)]
    | none => []

/-- A thread at its first start. -/
def Running.life (t : Running) : Lives where
  config := t.config
  running := true
  thread := t.state
  sent := []
  risk := 0
  skipped := 0

/-- A name that is one component of a file name. -/
def PlainName (name : Bytes) : Prop := slash ∉ name ∧ nul ∉ name

instance (name : Bytes) : Decidable (PlainName name) := inferInstanceAs (Decidable (_ ∧ _))

/-- The names of the sections are plain. -/
def Launch.Plain (l : Launch) : Prop :=
  ∀ name ∈ parseConfig (l.w.read l.filename), PlainName name

/-- The threads are where their names are, each with a record file of its own, and that
of `name` is in its own life. -/
structure InLife (name : Bytes) (p : Process) (w : Lives) : Prop where
  named : ∀ name' t, p.threads name' = some t → t.model.modelname = name' ∧ PlainName name'
  running : w.running = p.alive
  thread : ∃ t, p.threads name = some t ∧ t.config = w.config ∧ p.view t = w.thread

/-- A start with `-r` finds a config file with plain names and the record of the model
as it was left, and the model has a thread again. -/
def Reloads (name : Bytes) (p : Process) : ProcessAct → Prop
  | .thread _ _ => True
  | .external _ => True
  | .restart l =>
    l.Plain ∧ l.w.read (readName name) = p.record name ∧ ((l.process .r).threads name).isSome

section

theorem singleSlashes_append {front : Bytes} (h : slash ∉ front) (rest : Bytes) :
    singleSlashes (front ++ rest) = front ++ singleSlashes rest := by
  induction front with
  | nil => rfl
  | cons b front ih =>
    obtain ⟨hb, hfront⟩ := List.ne_and_not_mem_of_not_mem_cons h
    rw [List.cons_append, singleSlashes, if_neg fun hand => hb hand.1.symm, ih hfront]
    rfl

/-- The system takes the name of a record as it is, unless the name of the model has a
slash or a NUL. -/
theorem systemName_writtenName {name : Bytes} (plain : PlainName name) :
    systemName (writtenName name) = writtenName name := by
  have htail : slash ∉ name ++ ascii ".checkpoint" := by
    rw [List.mem_append, not_or]
    exact ⟨plain.1, by decide⟩
  have hwritten :
      writtenName name = ascii "checkpoint" ++ slash :: (name ++ ascii ".checkpoint") := by
    simp only [writtenName, List.append_assoc]
    rfl
  have hfirst : (name ++ ascii ".checkpoint").head? ≠ some slash :=
    fun hhead => htail (List.mem_of_mem_head? hhead)
  have hterminated : (writtenName name).takeWhile (· ≠ nul) = writtenName name := by
    rw [List.takeWhile_eq_self_iff]
    intro b hb
    have hnul : b ≠ nul := by
      rintro rfl
      rw [hwritten, List.mem_append, List.mem_cons, List.mem_append] at hb
      rcases hb with hb | hb | hb | hb
      · exact absurd hb (by decide)
      · exact absurd hb (by decide)
      · exact plain.2 hb
      · exact absurd hb (by decide)
    simpa using hnul
  rw [systemName, hterminated, hwritten, singleSlashes_append (by decide), singleSlashes,
    if_neg fun hand => hfirst hand.2]
  have hkept := singleSlashes_append htail []
  rw [List.append_nil, singleSlashes, List.append_nil] at hkept
  rw [hkept]

/-- The sections `[a]` and `[/a]` have one record file. -/
example : systemName (writtenName (ascii "/a")) = writtenName (ascii "a") := by decide

theorem writtenName_injective : Function.Injective writtenName := by
  intro a b h
  exact List.append_cancel_left (List.append_cancel_right h)

end

section

variable {mode : Mode} {l : Launch} {name : Bytes} {t : Running}

/-- The thread of a name is that of the section with the name. -/
theorem threads_eq_some_iff :
    (l.process mode).threads name = some t ↔
      (∃ rs, main mode l.garbage l.w l.filename = some rs) ∧
        ∃ values r, (parseConfig (l.w.read l.filename))[name]? = some values ∧
          setUp mode l.garbage l.w (name, values) = some r ∧
          start l.garbage l.w (l.now name) (l.connected name) r = some t := by
  constructor
  · intro h
    obtain ⟨rs, hrs, h⟩ := Option.bind_eq_some_iff.mp h
    obtain ⟨r, hr, ht⟩ := Option.bind_eq_some_iff.mp h
    obtain ⟨name', values, hmem, hsetUp⟩ := (mem_setUpAll hrs).mp (List.mem_of_find?_eq_some hr)
    have hname : r.modelname = name := by simpa using List.find?_some hr
    obtain rfl := (setUp_spec hsetUp).modelname.symm.trans hname
    exact ⟨⟨rs, hrs⟩, values, r, hmem, hsetUp, ht⟩
  · rintro ⟨⟨rs, hrs⟩, values, r, hmem, hsetUp, ht⟩
    have hr : r ∈ rs := (mem_setUpAll hrs).mpr ⟨name, values, hmem, hsetUp⟩
    have hname := (setUp_spec hsetUp).modelname
    have hfind : ∃ r', rs.find? (·.modelname = name) = some r' := by
      rw [← Option.isSome_iff_exists, List.find?_isSome]
      exact ⟨r, hr, by simpa using hname⟩
    obtain ⟨r', hr'⟩ := hfind
    obtain ⟨name', values', hmem', hsetUp'⟩ :=
      (mem_setUpAll hrs).mp (List.mem_of_find?_eq_some hr')
    have hname' : r'.modelname = name := by simpa using List.find?_some hr'
    obtain rfl := (setUp_spec hsetUp').modelname.symm.trans hname'
    obtain rfl := Option.some.inj (hmem'.symm.trans hmem)
    obtain rfl := Option.some.inj (hsetUp'.symm.trans hsetUp)
    simp only [Launch.process, hrs, Option.bind_some, hr', ht]

theorem modelname_of_threads (h : (l.process mode).threads name = some t) :
    t.model.modelname = name := by
  obtain ⟨-, values, r, -, hsetUp, ht⟩ := threads_eq_some_iff.mp h
  obtain ⟨-, position, hmodel, -⟩ := start_spec ht
  rw [hmodel]
  exact (setUp_spec hsetUp).modelname

theorem plainName_of_threads (plain : l.Plain) (h : (l.process mode).threads name = some t) :
    PlainName name := by
  obtain ⟨-, values, r, hmem, -⟩ := threads_eq_some_iff.mp h
  exact plain name (mem_of_getElem? hmem)

/-- A thread that has just been started sees its record as the directory has it. -/
theorem view_of_threads (plain : l.Plain) (h : (l.process mode).threads name = some t) :
    (l.process mode).view t = t.state := by
  have hname := modelname_of_threads h
  have hplain := plainName_of_threads plain h
  have hrecord : (l.process mode).record t.model.modelname = t.state.checkpoint := by
    rw [Process.record, hname, systemName_writtenName hplain, ← hname]
    obtain ⟨-, values, r, -, hsetUp, ht⟩ := threads_eq_some_iff.mp h
    obtain ⟨p, -, rfl⟩ := Option.map_eq_some_iff.mp ht
    rfl
  rw [Process.view, hrecord]

theorem inLife_process (plain : l.Plain) (h : (l.process mode).threads name = some t) :
    InLife name (l.process mode) t.life where
  named _ _ ht := ⟨modelname_of_threads ht, plainName_of_threads plain ht⟩
  running := rfl
  thread := ⟨t, h, rfl, view_of_threads plain h⟩

/-- With `-r` the thread starts in the state that `restart` finds. -/
theorem restart_of_threads (h : (l.process .r).threads name = some t) :
    restart t.config (l.garbage "check_position") (l.garbage "position")
      (l.w.fs t.model.members) (l.w.read (readName name)) (l.connected name) = some t.state := by
  obtain ⟨-, values, r, -, hsetUp, ht⟩ := threads_eq_some_iff.mp h
  obtain ⟨-, position, hmodel, hconfig, -⟩ := start_spec ht
  have hmembers : t.model.members = (parseModel l.garbage values).2 := by
    rw [hmodel]
    exact (setUp_spec hsetUp).members
  have hpath : t.config.path = (parseModel l.garbage values).2.path := by
    rw [hconfig, ← (setUp_spec hsetUp).members]
    rfl
  have hstate :=
    @start_setUp l.garbage l.w name values (l.now name) (l.connected name) t.config hpath
  rw [hsetUp, Option.bind_some, ht, Option.map_some] at hstate
  rw [hmembers]
  exact hstate.symm

end

section

variable {name : Bytes} {p : Process} {w : Lives}

theorem next_step {t : Running} (h : p.next name = .step t) :
    p.threads name = some t ∧ p.alive = true := by
  unfold Process.next at h
  split at h
  · rename_i u hu
    split at h
    · rename_i halive
      split at h
      · cases h
      · obtain rfl := Move.step.inj h
        exact ⟨hu, halive⟩
    · cases h
  · cases h

theorem named_turn
    (named : ∀ name' t, p.threads name' = some t → t.model.modelname = name' ∧ PlainName name')
    {name' : Bytes} {t' : Running} (ans : Answer) (ht' : p.threads name' = some t') :
    ∀ n t, (p.turn name' t' ans).threads n = some t → t.model.modelname = n ∧ PlainName n := by
  intro n t ht
  by_cases hn : n = name'
  · subst hn
    simp only [Process.turn, Function.update_self, Option.some.injEq] at ht
    rw [← ht]
    exact named n t' ht'
  · simp only [Process.turn, Function.update_of_ne hn] at ht
    exact named n t ht

/-- What another thread does leaves this one and its record alone. -/
theorem inLife_other (h : InLife name p w) {name' : Bytes} {t' : Running} (ans : Answer)
    (hother : name' ≠ name) (ht' : p.threads name' = some t') :
    InLife name (p.turn name' t' ans) w := by
  obtain ⟨t, ht, hconfig, hview⟩ := h.thread
  have hrecord : systemName (writtenName t.model.modelname)
      ≠ systemName (writtenName t'.model.modelname) := by
    obtain ⟨hname, hplain⟩ := h.named name t ht
    obtain ⟨hname', hplain'⟩ := h.named name' t' ht'
    rw [hname, hname', systemName_writtenName hplain, systemName_writtenName hplain']
    exact fun heq => hother (writtenName_injective heq).symm
  refine ⟨named_turn h.named ans ht', h.running, t, ?_, hconfig, ?_⟩
  · simp only [Process.turn, Function.update_of_ne hother.symm, ht]
  · rw [← hview]
    simp only [Process.view, Process.record, Process.turn, Function.update_of_ne hrecord]

theorem inLife_thread (h : InLife name p w) {t : Running} (ans : Answer)
    (ht : p.threads name = some t) (alive : p.alive = true) :
    InLife name (p.turn name t ans) (lifeStep w (.act (.thread ans))) := by
  obtain ⟨t', ht', hconfig, hview⟩ := h.thread
  obtain rfl := Option.some.inj (ht'.symm.trans ht)
  have hrunning : w.running = true := h.running.trans alive
  simp only [lifeStep, if_pos hrunning]
  refine ⟨named_turn h.named ans ht, h.running,
    { t' with state := step t'.config (p.view t') (.thread ans) }, ?_, hconfig, ?_⟩
  · simp only [Process.turn, Function.update_self]
  · simp only [← hconfig, ← hview, Process.view, Process.record, Process.turn, Function.update_self]

/-- The division by zero is a kill for all models. -/
theorem inLife_ended (h : InLife name p w) : InLife name p.ended (lifeStep w .kill) :=
  ⟨h.named, rfl, h.thread⟩

theorem inLife_external (h : InLife name p w) {t : Running} (world : World)
    (ht : p.threads name = some t) :
    InLife name (processStep p (.external world))
      (lifeStep w (.act (.external (world.fs t.model.members)))) := by
  obtain ⟨t', ht', hconfig, hview⟩ := h.thread
  obtain rfl := Option.some.inj (ht'.symm.trans ht)
  refine ⟨?_, h.running, ?_⟩
  · intro n u hu
    obtain ⟨u', hu', rfl⟩ := Option.map_eq_some_iff.mp hu
    exact h.named n u' hu'
  · refine ⟨_, Option.map_eq_some_iff.mpr ⟨t', ht, rfl⟩, hconfig, ?_⟩
    simp only [lifeStep, ← hview]
    rfl

theorem InLife.checkpoint (h : InLife name p w) : w.thread.checkpoint = p.record name := by
  obtain ⟨t, ht, -, hview⟩ := h.thread
  rw [← hview, ← (h.named name t ht).1]
  rfl

theorem inLife_restart (h : InLife name p w) {l : Launch} (reloads : Reloads name p (.restart l)) :
    InLife name (l.process .r) (run lifeStep w (seen name p (.restart l))) := by
  obtain ⟨hplain, hrecord, hthread⟩ := reloads
  obtain ⟨t, ht⟩ := Option.isSome_iff_exists.mp hthread
  have hcheckpoint : w.thread.checkpoint = l.w.read (readName name) :=
    h.checkpoint.trans hrecord.symm
  have hrestart := restart_of_threads ht
  have hstarted : ∃ w' : Lives,
      run lifeStep w (seen name p (.restart l)) = w'.restarted t.config t.state := by
    simp only [seen, ht, run_cons, run_nil, lifeStep, step, hcheckpoint, hrestart,
      Bool.false_eq_true, if_false]
    exact ⟨_, rfl⟩
  obtain ⟨w', hw'⟩ := hstarted
  rw [hw']
  exact ⟨(inLife_process hplain ht).named, rfl, t, ht, rfl, view_of_threads hplain ht⟩

theorem inLife_step (h : InLife name p w) (a : ProcessAct) (reloads : Reloads name p a) :
    InLife name (processStep p a) (run lifeStep w (seen name p a)) := by
  cases a with
  | thread name' ans =>
    simp only [processStep, seen]
    cases hnext : p.next name' with
    | none => exact h
    | ends => exact inLife_ended h
    | step t' =>
      obtain ⟨ht', halive⟩ := next_step hnext
      by_cases hname : name' = name
      · subst hname
        simp only [if_true]
        exact inLife_thread h ans ht' halive
      · simp only [if_neg hname]
        exact inLife_other h ans hname ht'
  | external world =>
    obtain ⟨t, ht, -⟩ := h.thread
    simp only [seen, ht]
    exact inLife_external h world ht
  | restart l => exact inLife_restart h reloads

end

/-- A section without a set leaves `checkpoint_time` unassigned. Where the memory holds a
zero, the first poll ends the process. -/
example :
    (run processStep
      (Launch.process .f ⟨sampleWorld withoutSet [] [], fun _ => 0, ascii "c", fun _ => 0,
        fun _ => true⟩)
      (List.replicate 6 (.thread (ascii "a") (allWell 0)))).alive = false := by
  decide

/-- Whole lines are appended to the log file of the thread, and its offsets fit. -/
def Lengthens (ino : Nat) (t : Running) (fs : Fs) : Prop :=
  Appends (Terminated newline) ino t.state (.external fs) ∧ (fs.file ino).length < 2 ^ 63

/-- Whole lines are appended to the log file of the model, and in every start with `-r`
the section makes the same messages as before. -/
def Orderly (m : Config) (ino : Nat) (name : Bytes) (p : Process) (a : ProcessAct) : Prop :=
  Reloads name p a ∧
    match a with
    | .thread _ _ => True
    | .external w => ∀ t, p.threads name = some t → Lengthens ino t (w.fs t.model.members)
    | .restart l => ∀ t t', p.threads name = some t → (l.process .r).threads name = some t' →
      Lengthens ino t (l.w.fs t'.model.members) ∧ SameMessages m t'.config

theorem lifeRule_seen {m : Config} {ino : Nat} {name : Bytes} {p : Process} {w : Lives}
    (h : InLife name p w) (a : ProcessAct) (orderly : Orderly m ino name p a) :
    Guarded lifeStep (LifeRule m ino) w (seen name p a) := by
  obtain ⟨hreloads, horderly⟩ := orderly
  obtain ⟨t, ht, -, hview⟩ := h.thread
  have hfs : w.thread.fs = t.state.fs := by
    rw [← hview]
    rfl
  cases a with
  | thread name' ans =>
    simp only [seen]
    split
    · trivial
    · exact ⟨trivial, trivial⟩
    · split
      · exact ⟨trivial, trivial⟩
      · trivial
  | external world =>
    obtain ⟨⟨hpath, bytes, hbytes, hfile⟩, hsmall⟩ := horderly t ht
    simp only [seen, ht]
    exact ⟨⟨⟨hpath, bytes, hbytes, by rw [hfs, hfile]⟩, hsmall⟩, trivial⟩
  | restart l =>
    obtain ⟨t', ht'⟩ := Option.isSome_iff_exists.mp hreloads.2.2
    obtain ⟨⟨⟨hpath, bytes, hbytes, hfile⟩, hsmall⟩, hsame⟩ := horderly t t' ht ht'
    simp only [seen, ht']
    exact ⟨⟨⟨hpath, bytes, hbytes, by rw [hfs, hfile]⟩, hsmall⟩, trivial, hsame, trivial⟩

theorem follows_life (m : Config) (ino : Nat) (name : Bytes) :
    Follows processStep lifeStep (seen name) (InLife name) (Orderly m ino name)
      (LifeRule m ino) where
  related _ _ a h hg := inLife_step h a hg.1
  allowed _ _ a h hg := lifeRule_seen h a hg

/-- Without `-r` a thread starts at the end of its log file. -/
theorem life_of_first {l : Launch} {name : Bytes} {t : Running} {ino : Nat}
    (ht : (l.process .f).threads name = some t)
    (hino : l.w.lookup t.model.members.path = some ino) :
    t.life = Lives.started t.config (l.w.fs t.model.members) (l.w.read (writtenName name))
      (l.w.file ino).length ⟨ino, (l.w.file ino).length⟩ (l.connected name) := by
  obtain ⟨-, values, r, -, hsetUp, hstart⟩ := threads_eq_some_iff.mp ht
  obtain ⟨-, position, hmodel, -⟩ := start_spec hstart
  have hname := modelname_of_threads ht
  obtain rfl := Option.some.inj hsetUp
  obtain ⟨⟨r', oStat⟩, hopen, rfl⟩ := Option.map_eq_some_iff.mp hstart
  obtain ⟨ino', hlookup, rfl, rfl⟩ := openLogFile_spec hopen
  obtain rfl := Option.some.inj (hlookup.symm.trans hino)
  rfl

theorem path_ne_nil {l : Launch} {mode : Mode} {name : Bytes} {t : Running} {ino : Nat}
    (ht : (l.process mode).threads name = some t)
    (hino : l.w.lookup t.model.members.path = some ino) : t.config.path ≠ [] := by
  obtain ⟨-, values, r, -, hsetUp, hstart⟩ := threads_eq_some_iff.mp ht
  obtain ⟨-, position, hmodel, hconfig, -⟩ := start_spec hstart
  intro hpath
  rw [hconfig] at hpath
  rw [hmodel] at hino
  have hempty : r.members.path = [] := hpath
  rw [hempty, l.w.unnamed] at hino
  cases hino

/-- From the config file to the server, for each model and through any number of kills
at any point and starts with `-r`: all lines in front of the position, in their order,
were acknowledged in some life or wait in the batch, except at most the skipped ones.
These are, for each start, the lines that were pending when the record was written or,
if it gives no position, those that were unsent. -/
theorem coversLines_process {l : Launch} {name : Bytes} {t : Running} {ino : Nat} (plain : l.Plain)
    (ht : (l.process .f).threads name = some t)
    (hino : l.w.lookup t.model.members.path = some ino) (lines : Terminated newline (l.w.file ino))
    (small : (l.w.file ino).length < 2 ^ 63)
    (old : RecordOf t.config (· = (l.w.file ino).length) (l.w.read (writtenName name)))
    {acts : List ProcessAct}
    (orderly : Guarded processStep (Orderly t.config ino name) (l.process .f) acts) :
    let w := run lifeStep t.life (seenIn processStep (seen name) (l.process .f) acts)
    InLife name (run processStep (l.process .f) acts) w ∧
      CoversLines t.config ino (l.w.file ino).length w := by
  intro w
  have hinLife := inLife_process plain ht
  refine ⟨(follows_life t.config ino name).run_related hinLife orderly, ?_⟩
  have hrule := (follows_life t.config ino name).run_allowed hinLife orderly
  have hpath := path_ne_nil ht hino
  have hopened : Opened (l.w.fs t.model.members) ino (l.w.file ino).length (l.w.file ino).length :=
    ⟨hino, Nat.le_refl _, Nat.le_refl _⟩
  have hstart : ∃ before, Surviving t.config ino (l.w.file ino).length before t.life := by
    rw [life_of_first ht hino]
    exact ⟨_, surviving_started t.config hopened lines small old (l.connected name)⟩
  obtain ⟨before, hsurviving⟩ := invariant_run
    (I := fun w => ∃ before, Surviving t.config ino (l.w.file ino).length before w)
    (fun _ a h ha => surviving_step hpath h a ha) hstart hrule
  exact hsurviving.coversLines

/-- Two models with the log files `p` and `q`, and their records. -/
def pairWorld (logP : Bytes) (recordA recordB : Option Bytes) : World where
  lookup name :=
    if name = ascii "c" then some 0 else if name = ascii "p" then some 1
    else if name = ascii "q" then some 2
    else if name = readName (ascii "a") then recordA.map fun _ => 3
    else if name = readName (ascii "b") then recordB.map fun _ => 4 else none
  file ino :=
    if ino = 0 then
      ascii "[a]\nport=1\nhost=h\naccesskey=k\ntype=t\nfrom=f\npath=p\nset=s\n" ++
        ascii "[b]\nport=1\nhost=h\naccesskey=l\ntype=t\nfrom=f\npath=q\nset=s\n"
    else if ino = 1 then logP else if ino = 2 then ascii "z\n"
    else if ino = 3 then recordA.getD [] else recordB.getD []
  unnamed := by
    have hnil : ∀ text ∈ [ascii "c", ascii "p", ascii "q", readName (ascii "a"),
        readName (ascii "b")], [] ≠ text := by
      decide
    simp only [List.forall_mem_cons] at hnil
    simp [hnil]
  an := []
  lib := .cxx11

def pairLaunch (w : World) : Launch := ⟨w, fun _ => 0, ascii "c", fun _ => 0, fun _ => true⟩

def firstLaunch : Launch := pairLaunch (pairWorld (ascii "x\n") none none)

/-- Both threads write their records in turn. -/
def recordingPair : List ProcessAct :=
  (List.replicate 7 [.thread (ascii "a") (allWell 0), .thread (ascii "b") (allWell 0)]).flatten

/-- The line `y` comes, and the thread of `a` queues it. -/
def queueingPair : List ProcessAct := List.replicate 7 (.thread (ascii "a") (allWell 1))

def grownWorld : World := pairWorld (ascii "x\ny\n") none none

/-- The process is killed, and finds the records that the threads have written. -/
def secondLaunch : Launch :=
  let p := run processStep (firstLaunch.process .f)
    (recordingPair ++ .external grownWorld :: queueingPair)
  pairLaunch (pairWorld (ascii "x\ny\n") (p.record (ascii "a")) (p.record (ascii "b")))

def ProcessAct.isThread : ProcessAct → Bool
  | .thread _ _ => true
  | _ => false

theorem guarded_threads {G : Process → ProcessAct → Prop}
    (free : ∀ p name ans, G p (.thread name ans)) {acts : List ProcessAct}
    (h : acts.all ProcessAct.isThread = true) (p : Process) : Guarded processStep G p acts := by
  induction acts generalizing p with
  | nil => trivial
  | cons a acts ih =>
    rw [List.all_cons, Bool.and_eq_true] at h
    cases a with
    | thread name ans => exact ⟨free p name ans, ih h.2 _⟩
    | external w => cases h.1
    | restart l => cases h.1

theorem forall_of_all {α : Type} {P : α → Prop} [DecidablePred P] {o : Option α}
    (h : o.all (fun a => P a) = true) {a : α} (ha : o = some a) : P a :=
  of_decide_eq_true ((Option.all_eq_true _ _).mp h a ha)

/-- The process before the kill. -/
def killed : Process :=
  run processStep (firstLaunch.process .f)
    (recordingPair ++ .external grownWorld :: queueingPair)

/-- A start that finds the same file, and a section as it was in `first`. -/
theorem orderly_restart {first second : Launch} {name : Bytes} {t : Running} {p : Process}
    (ht : (first.process .f).threads name = some t) {ino : Nat}
    (reloads : Reloads name p (.restart second))
    (hfiles : (p.threads name).all (fun u =>
      ((second.process .r).threads name).all fun t' =>
        (second.w.fs t'.model.members).path = some ino ∧
          (second.w.fs t'.model.members).file ino = u.state.fs.file ino ∧
            ((second.w.fs t'.model.members).file ino).length < 2 ^ 63) = true)
    (hsame : ((first.process .f).threads name).all (fun t =>
      ((second.process .r).threads name).all fun t' =>
        t'.config.logPrefix = t.config.logPrefix ∧ t'.config.category = t.config.category ∧
          t'.config.path = t.config.path) = true) :
    Orderly t.config ino name p (.restart second) := by
  refine ⟨reloads, ?_⟩
  intro u t' hu ht'
  obtain ⟨hfound, hfile, hsmall⟩ := forall_of_all ((Option.all_eq_true _ _).mp hfiles u hu) ht'
  obtain ⟨hlead, hcategory, hpath⟩ :=
    forall_of_all ((Option.all_eq_true _ _).mp hsame t ht) ht'
  refine ⟨⟨⟨hfound, [], terminated_nil _, ?_⟩, hsmall⟩, ⟨hlead, hcategory, hpath⟩⟩
  rw [List.append_nil]
  exact hfile

theorem plain_of_keys {l : Launch}
    (h : ∀ name ∈ (parseConfig (l.w.read l.filename)).keys, PlainName name) : l.Plain :=
  fun name hname => h name (Std.ExtTreeMap.mem_keys.mpr hname)

theorem plain_firstLaunch : firstLaunch.Plain := plain_of_keys (by decide)

theorem recordOf_firstLaunch (m : Config) (P : Int → Prop) :
    RecordOf m P (firstLaunch.w.read (writtenName (ascii "a"))) := by
  have hnone : firstLaunch.w.read (writtenName (ascii "a")) = none := by decide
  rw [hnone]
  exact recordOf_none m P

theorem orderly_secondLaunch {t : Running}
    (ht : (firstLaunch.process .f).threads (ascii "a") = some t) :
    Orderly t.config 1 (ascii "a") killed (.restart secondLaunch) :=
  orderly_restart ht ⟨plain_of_keys (by decide), by decide, by decide⟩ (by decide) (by decide)

theorem orderly_grownWorld {t : Running} :
    Orderly t.config 1 (ascii "a")
      (run processStep (firstLaunch.process .f) recordingPair) (.external grownWorld) := by
  refine ⟨trivial, ?_⟩
  intro u hu
  have hfiles : ((run processStep (firstLaunch.process .f) recordingPair).threads
      (ascii "a")).all (fun u => (grownWorld.fs u.model.members).path = some 1 ∧
        (grownWorld.fs u.model.members).file 1 = u.state.fs.file 1 ++ ascii "y\n" ∧
          ((grownWorld.fs u.model.members).file 1).length < 2 ^ 63) = true := by
    decide
  obtain ⟨hpath, hfile, hsmall⟩ := forall_of_all hfiles hu
  exact ⟨⟨hpath, ascii "y\n", by decide, hfile⟩, hsmall⟩

theorem coversLines_process_killedPair :
    ∃ t w, (firstLaunch.process .f).threads (ascii "a") = some t ∧
      InLife (ascii "a") (secondLaunch.process .r) w ∧ CoversLines t.config 1 2 w := by
  have hsome : ((firstLaunch.process .f).threads (ascii "a")).isSome := by decide
  obtain ⟨t, ht⟩ := Option.isSome_iff_exists.mp hsome
  have hall : ((firstLaunch.process .f).threads (ascii "a")).all
      (fun t => firstLaunch.w.lookup t.model.members.path = some 1) = true := by
    decide
  have orderly : Guarded processStep (Orderly t.config 1 (ascii "a")) (firstLaunch.process .f)
      ((recordingPair ++ .external grownWorld :: queueingPair) ++ [.restart secondLaunch]) := by
    rw [guarded_append, guarded_append]
    have hfree : ∀ p name ans, Orderly t.config 1 (ascii "a") p (.thread name ans) :=
      fun _ _ _ => ⟨trivial, trivial⟩
    exact ⟨⟨guarded_threads hfree (by decide) _, orderly_grownWorld,
      guarded_threads hfree (by decide) _⟩, orderly_secondLaunch ht, trivial⟩
  have hcovers := coversLines_process plain_firstLaunch ht (forall_of_all hall ht) (by decide)
    (by decide) (recordOf_firstLaunch _ _) orderly
  rw [run_append] at hcovers
  exact ⟨t, _, ht, hcovers⟩

end ModelRead
