import Logtail.ModelConfig
import Logtail.Recovery

/-!
# From the config file to the threads

The main function sets the models up one after another and then starts a thread
for each, whatever `parseModel` has returned: only a log file that cannot be
opened keeps a model out of the loop. An option that comes behind the path is
missing there without anyone noticing.
-/

namespace ModelRead

open Framing FileStream ScribeSend Checkpoint Conf

/-- The files that a start finds, by name. The empty name opens nothing. `an` is the number
of the machine. -/
structure World where
  lookup : Bytes → Option Nat
  file : Nat → Bytes
  unnamed : lookup [] = none
  an : Bytes
  lib : Libstdcxx

namespace World

def read (w : World) (name : Bytes) : Option Bytes := (w.lookup name).map w.file

/-- The files that the thread of a model looks at. -/
def fs (w : World) (m : Members) : Fs where
  file := w.file
  path := w.lookup m.path
  backupPath := w.lookup m.backupPath

end World

/-- An object of class `ModelRead`. What the constructor does not initialize is `none` until it
is assigned. -/
structure Model where
  modelconfig : StringMap
  members : Members
  modelname : Bytes
  isreload : Bool
  position : Option Int
  localAn : Bytes
  logPrefix : Option Bytes
  category : Option Bytes

namespace Model

/-- `make_prefix_category` -/
def makePrefixCategory (r : Model) : Model :=
  { r with
    logPrefix := some (ascii "_accesskey=" ++ r.members.accesskey ++ ascii "&_ip=" ++
      r.members.from_ ++ ascii "&_port=" ++ r.members.logServerPort ++ ascii "&_an=" ++ r.localAn ++
      ascii "&_data=")
    category := some (r.members.type ++ ascii "_" ++ r.members.accesskey ++ ascii "_" ++
      r.members.set_) }

/-- The members that the loop reads; `garbage` gives the value of one that is not assigned. -/
def config (garbage : String → Int) (w : World) (now : Int) (r : Model) : Config where
  logPrefix := r.logPrefix.getD []
  category := r.category.getD []
  path := r.members.path
  maxSendMsg := r.members.maxSendMsg.getD (garbage "max_send_msg")
  checkpointTime := r.members.checkpointTime.getD (garbage "checkpoint_time")
  now := now
  lib := w.lib

/-- `reload` on the object: `position` is assigned in the branch that sets `isreload`. -/
def reload (garbage : String → Int) (w : World) (mCheckpoint : CheckpointMap) (r : Model) : Model :=
  let after := ModelRead.reload (r.config garbage w 0) (garbage "check_position") mCheckpoint
    (garbage "position")
  { r with isreload := after.1, position := if after.1 then some after.2 else r.position }

/-- `openLogFile` on the object, and the stat result. -/
def openLogFile (garbage : String → Int) (w : World) (r : Model) : Option (Model × Stat) :=
  (ModelRead.openLogFile (w.fs r.members) r.isreload (r.position.getD (garbage "position"))).map
    fun p => ({ r with position := some p.1 }, p.2)

end Model

inductive Mode where
  | f
  | r
  deriving DecidableEq

/-- The first calls for a model, up to `setisreload(false)`, and `set_ipandan`. -/
def configured (garbage : String → Int) (w : World) (name : Bytes) (values : StringMap) :
    Model where
  modelconfig := values
  members := (parseModel garbage values).2
  modelname := name
  isreload := false
  position := none
  localAn := w.an
  logPrefix := none
  category := none

/-- One round of the loop of `main`. With `-r` the fields of the record are looked up without a
test; `none` stands for a lookup that has found nothing. -/
def setUp (mode : Mode) (garbage : String → Int) (w : World) (model : Bytes × StringMap) :
    Option Model :=
  let r := configured garbage w model.1 model.2
  match mode with
  | .f => some r.makePrefixCategory
  | .r => (getcheckpoint (w.read (readName model.1))).map fun mCheckpoint =>
      (r.reload garbage w mCheckpoint).makePrefixCategory

def setUpAll (mode : Mode) (garbage : String → Int) (w : World) (models : StringMapModel) :
    Option (List Model) :=
  models.toList.mapM (setUp mode garbage w)

/-- `main` up to the threads; the results of `parseModel` and `parseConfig` are not used. -/
def main (mode : Mode) (garbage : String → Int) (w : World) (filename : Bytes) :
    Option (List Model) :=
  setUpAll mode garbage w (parseConfig (w.read filename))

/-- A thread that has entered `logtail_File`. -/
structure Running where
  model : Model
  config : Config
  handed : Bytes × Int × Int
  state : State

/-- `start`; without the log file the thread ends. -/
def start (garbage : String → Int) (w : World) (now : Int) (connected : Bool) (r : Model) :
    Option Running :=
  (r.openLogFile garbage w).map fun p => {
    model := p.1
    config := p.1.config garbage w now
    handed := hostPortTimeout garbage p.1.members
    state := started (w.fs p.1.members) (w.read (writtenName p.1.modelname))
      (p.1.position.getD (garbage "position")) p.2 connected }

/-- Some thread runs so, in a start with this mode and this config file. -/
def Runs (mode : Mode) (garbage : String → Int) (w : World) (filename : Bytes) (t : Running) :
    Prop :=
  ∃ rs, main mode garbage w filename = some rs ∧
    ∃ r ∈ rs, ∃ now connected, start garbage w now connected r = some t

section

variable {α β : Type} {f : α → Option β} {xs : List α}

theorem mapM_eq_some_iff {ys : List β} :
    xs.mapM f = some ys ↔ xs.map f = ys.map some := by
  induction xs generalizing ys with
  | nil => cases ys <;> simp
  | cons x xs ih =>
    rw [List.mapM_cons]
    constructor
    · intro h
      obtain ⟨y, hy, h⟩ := Option.bind_eq_some_iff.mp h
      obtain ⟨rest, hrest, h⟩ := Option.bind_eq_some_iff.mp h
      obtain rfl := Option.some.inj h
      rw [List.map_cons, List.map_cons, hy, ih.mp hrest]
    · intro h
      cases ys with
      | nil => cases h
      | cons y ys =>
        obtain ⟨hy, hrest⟩ := List.cons.inj h
        rw [hy, ih.mpr hrest]
        rfl

theorem mem_of_mapM {ys : List β} (h : xs.mapM f = some ys) {y : β} :
    y ∈ ys ↔ ∃ x ∈ xs, f x = some y := by
  have hmem : some y ∈ ys.map some ↔ y ∈ ys := by simp
  rw [← hmem, ← mapM_eq_some_iff.mp h, List.mem_map]

theorem mapM_isSome_iff : (∃ ys, xs.mapM f = some ys) ↔ ∀ x ∈ xs, ∃ y, f x = some y := by
  constructor
  · rintro ⟨ys, h⟩ x hx
    have hfx : f x ∈ ys.map some := mapM_eq_some_iff.mp h ▸ List.mem_map_of_mem hx
    obtain ⟨y, -, hy⟩ := List.mem_map.mp hfx
    exact ⟨y, hy.symm⟩
  · intro h
    refine ⟨xs.filterMap f, mapM_eq_some_iff.mpr ?_⟩
    induction xs with
    | nil => rfl
    | cons x xs ih =>
      obtain ⟨hx, hrest⟩ := List.forall_mem_cons.mp h
      obtain ⟨y, hy⟩ := hx
      rw [List.map_cons, List.filterMap_cons_some hy, List.map_cons, hy, ih hrest]

end

section

variable {mode : Mode} {garbage : String → Int} {w : World} {name : Bytes} {values : StringMap}
  {models : StringMapModel} {r : Model}

/-- What the loop of `main` has assigned, whatever the mode. -/
structure SetUp (garbage : String → Int) (name : Bytes) (values : StringMap) (r : Model) :
    Prop where
  modelconfig : r.modelconfig = values
  members : r.members = (parseModel garbage values).2
  modelname : r.modelname = name
  logPrefix : r.logPrefix.isSome
  category : r.category.isSome

theorem setUp_spec (h : setUp mode garbage w (name, values) = some r) :
    SetUp garbage name values r := by
  cases mode with
  | f =>
    obtain rfl := Option.some.inj h
    exact ⟨rfl, rfl, rfl, rfl, rfl⟩
  | r =>
    obtain ⟨mCheckpoint, -, rfl⟩ := Option.map_eq_some_iff.mp h
    exact ⟨rfl, rfl, rfl, rfl, rfl⟩

theorem getcheckpoint_isSome_iff {file : Option Bytes} :
    (∃ map, getcheckpoint file = some map) ↔ file.isSome := by
  rw [← Option.isSome_iff_exists, getcheckpoint, Option.isSome_map]

theorem setUp_isSome_iff :
    (∃ r, setUp mode garbage w (name, values) = some r) ↔
      (mode = .r → (w.read (readName name)).isSome) := by
  cases mode with
  | f => simp [setUp]
  | r =>
    rw [← getcheckpoint_isSome_iff]
    simp [setUp, ← Option.isSome_iff_exists]

theorem setUpAll_isSome_iff :
    (∃ rs, setUpAll mode garbage w models = some rs) ↔
      (mode = .r → ∀ name ∈ models, (w.read (readName name)).isSome) := by
  rw [setUpAll, mapM_isSome_iff]
  constructor
  · intro h hmode name hname
    obtain ⟨values, hvalues⟩ := Option.isSome_iff_exists.mp
      (Std.ExtTreeMap.mem_iff_isSome_getElem?.mp hname)
    exact setUp_isSome_iff.mp
      (h (name, values) (Std.ExtTreeMap.mem_toList_iff_getElem?_eq_some.mpr hvalues)) hmode
  · rintro h ⟨name, values⟩ hmem
    refine setUp_isSome_iff.mpr fun hmode => h hmode name ?_
    exact mem_of_getElem? (Std.ExtTreeMap.mem_toList_iff_getElem?_eq_some.mp hmem)

/-- The objects are those of the sections. -/
theorem mem_setUpAll {rs : List Model} (h : setUpAll mode garbage w models = some rs) :
    r ∈ rs ↔ ∃ name values, models[name]? = some values ∧
      setUp mode garbage w (name, values) = some r := by
  rw [mem_of_mapM h]
  constructor
  · rintro ⟨⟨name, values⟩, hmem, hr⟩
    exact ⟨name, values, Std.ExtTreeMap.mem_toList_iff_getElem?_eq_some.mp hmem, hr⟩
  · rintro ⟨name, values, hmem, hr⟩
    exact ⟨(name, values), Std.ExtTreeMap.mem_toList_iff_getElem?_eq_some.mpr hmem, hr⟩

theorem openLogFile_isSome_iff :
    (∃ p, r.openLogFile garbage w = some p) ↔ (w.lookup r.members.path).isSome := by
  rw [← Option.isSome_iff_exists, Model.openLogFile, Option.isSome_map, openLogFile,
    Option.isSome_map]
  rfl

/-- The position after `openLogFile`, and nothing else that changes. -/
theorem openLogFile_spec {r' : Model} {oStat : Stat}
    (h : r.openLogFile garbage w = some (r', oStat)) :
    ∃ ino, w.lookup r.members.path = some ino ∧ oStat = ⟨ino, (w.file ino).length⟩ ∧
      r' = { r with position := some (if r.isreload then
        min (r.position.getD (garbage "position")) (w.file ino).length
        else (w.file ino).length) } := by
  obtain ⟨⟨position, oStat'⟩, hopen, heq⟩ := Option.map_eq_some_iff.mp h
  obtain ⟨rfl, rfl⟩ := Prod.mk.inj heq
  cases hpath : w.lookup r.members.path with
  | none =>
    have hnone : (w.fs r.members).path = none := hpath
    rw [openLogFile, hnone] at hopen
    cases hopen
  | some ino =>
    have hsome : (w.fs r.members).path = some ino := hpath
    refine ⟨ino, rfl, ?_⟩
    cases hreload : r.isreload with
    | true =>
      rw [hreload, openLogFile_reload hsome] at hopen
      obtain ⟨rfl, rfl⟩ := Prod.mk.inj (Option.some.inj hopen)
      exact ⟨rfl, rfl⟩
    | false =>
      rw [hreload, openLogFile, hsome] at hopen
      obtain ⟨rfl, rfl⟩ := Prod.mk.inj (Option.some.inj hopen)
      exact ⟨rfl, rfl⟩

/-- The loop is entered with the members of the object and the position that is found. -/
theorem start_spec {now : Int} {connected : Bool} {t : Running}
    (h : start garbage w now connected r = some t) :
    (w.lookup r.members.path).isSome ∧
      ∃ position, t.model = { r with position := some position } ∧
        t.config = r.config garbage w now ∧ t.state.position = position := by
  obtain ⟨⟨r', oStat⟩, hopen, rfl⟩ := Option.map_eq_some_iff.mp h
  obtain ⟨ino, -, -, rfl⟩ := openLogFile_spec hopen
  exact ⟨openLogFile_isSome_iff.mp ⟨_, hopen⟩, _, rfl, rfl, rfl⟩

theorem start_isSome_iff {now : Int} {connected : Bool} :
    (∃ t, start garbage w now connected r = some t) ↔ (w.lookup r.members.path).isSome := by
  rw [← openLogFile_isSome_iff, ← Option.isSome_iff_exists, start, Option.isSome_map,
    Option.isSome_iff_exists]

/-- With `-r` the loop of a model is entered in the state that `restart` finds from its files. -/
theorem start_setUp (now : Int) (connected : Bool) {m : Config}
    (hpath : m.path = (parseModel garbage values).2.path) :
    ((setUp .r garbage w (name, values)).bind (start garbage w now connected)).map Running.state =
      restart m (garbage "check_position") (garbage "position")
        (w.fs (parseModel garbage values).2) (w.read (readName name)) connected := by
  cases hmap : getcheckpoint (w.read (readName name)) with
  | none => simp [setUp, restart, hmap]
  | some map =>
    have hobject : reload ((configured garbage w name values).config garbage w 0)
        (garbage "check_position") map (garbage "position") =
          reload m (garbage "check_position") map (garbage "position") := by
      rw [reload, reload, hpath]
      rfl
    have hposition : (if (reload m (garbage "check_position") map (garbage "position")).1 then
          some (reload m (garbage "check_position") map (garbage "position")).2
        else none).getD (garbage "position") =
          (reload m (garbage "check_position") map (garbage "position")).2 := by
      by_cases hnames : m.path = map.checkPath <;> simp [reload, hnames]
    simp only [setUp, restart, hmap, Option.map_some, Option.bind_some, Option.bind_eq_bind, start,
      Model.openLogFile, Model.makePrefixCategory, Model.reload, hobject]
    simp only [configured, hposition]
    cases openLogFile (w.fs (parseModel garbage values).2)
        (reload m (garbage "check_position") map (garbage "position")).1
        (reload m (garbage "check_position") map (garbage "position")).2 with
    | none => rfl
    | some opened => rfl

/-- The path that is opened is the path of the section, unless an option in front of it is
missing; then it is empty. -/
theorem lookup_parseModel_isSome_iff :
    (w.lookup (parseModel garbage values).2.path).isSome ↔
      (∀ key ∈ ["port", "host", "accesskey", "type", "from"], ascii key ∈ values) ∧
        ∃ path, values[ascii "path"]? = some path ∧ (w.lookup path).isSome := by
  have houtcome := parseOptions_outcome garbage values
  cases hparse : parseOptions garbage values with
  | ok m =>
    rw [hparse] at houtcome
    rw [parseModel_of_ok hparse]
    simp [mem_of_getElem? houtcome.port, mem_of_getElem? houtcome.host,
      mem_of_getElem? houtcome.accesskey, mem_of_getElem? houtcome.type,
      mem_of_getElem? houtcome.from_, houtcome.path]
  | error e =>
    rw [hparse] at houtcome
    rw [parseModel_of_error hparse]
    rcases houtcome with ⟨hkey, hnot, hpath⟩ | ⟨-, hset⟩
    · rw [hpath, w.unnamed]
      refine ⟨nofun, ?_⟩
      rintro ⟨hall, path, hmem, -⟩
      have hsplit : e.1 ∈ ["port", "host", "accesskey", "type", "from"] ++ ["path"] := hkey
      rcases List.mem_append.mp hsplit with hkey | hkey
      · exact absurd (hall e.1 hkey) hnot
      · rw [List.mem_singleton.mp hkey] at hnot
        exact absurd (mem_of_getElem? hmem) hnot
    · simp [hset.port, hset.host, hset.accesskey, hset.type, hset.from_, hset.path]

end

/-- The options that are marked as necessary for the user. -/
def requiredKeys : List String :=
  ["port", "host", "path", "backup_path", "accesskey", "type", "set", "log_server_port", "from"]

/-- A thread of a valid model. A member counts as assigned also when what was assigned came from
an uninitialized variable; the two numbers are positive even then. -/
structure Valid (garbage : String → Int) (t : Running) : Prop where
  parsed : (parseModel garbage t.model.modelconfig).1 = true
  required : ∀ key ∈ requiredKeys, ascii key ∈ t.model.modelconfig
  maxSendMsg : ∃ v, t.model.members.maxSendMsg = some v ∧ 0 < v ∧ t.config.maxSendMsg = v
  checkpointTime : ∃ v, t.model.members.checkpointTime = some v ∧ 0 < v ∧
    t.config.checkpointTime = v
  position : ∃ p, t.model.position = some p ∧ t.state.position = p
  logPrefix : ∃ text, t.model.logPrefix = some text ∧ t.config.logPrefix = text
  category : ∃ text, t.model.category = some text ∧ t.config.category = text

/-- A section that comes as far as its log file has the options that nothing asks for, too. -/
def Complete (w : World) (values : StringMap) : Prop :=
  (∀ key ∈ ["port", "host", "accesskey", "type", "from"], ascii key ∈ values) →
  (∃ path, values[ascii "path"]? = some path ∧ (w.lookup path).isSome) →
  ∀ key ∈ ["set", "backup_path", "log_server_port"], ascii key ∈ values

section

variable {mode : Mode} {garbage : String → Int} {w : World} {filename : Bytes}

/-- The threads are those of the sections whose log file can be opened. -/
theorem runs_iff {t : Running} :
    Runs mode garbage w filename t ↔
      (∃ rs, main mode garbage w filename = some rs) ∧
        ∃ (name : Bytes) (values : StringMap) (r : Model) (now : Int) (connected : Bool),
          (parseConfig (w.read filename))[name]? = some values ∧
          setUp mode garbage w (name, values) = some r ∧
          start garbage w now connected r = some t := by
  constructor
  · rintro ⟨rs, hrs, r, hr, now, connected, ht⟩
    obtain ⟨name, values, hmem, hsetUp⟩ := (mem_setUpAll hrs).mp hr
    exact ⟨⟨rs, hrs⟩, name, values, r, now, connected, hmem, hsetUp, ht⟩
  · rintro ⟨⟨rs, hrs⟩, name, values, r, now, connected, hmem, hsetUp, ht⟩
    exact ⟨rs, hrs, r, (mem_setUpAll hrs).mpr ⟨name, values, hmem, hsetUp⟩, now, connected, ht⟩

/-- When `main` gets to the threads, the log file decides which of them enter the loop. -/
theorem runs_of_lookup (defined : ∃ rs, main mode garbage w filename = some rs) {name : Bytes}
    {values : StringMap} (hmem : (parseConfig (w.read filename))[name]? = some values)
    (hlookup : (w.lookup (parseModel garbage values).2.path).isSome) :
    ∃ t, Runs mode garbage w filename t ∧ t.model.modelconfig = values ∧
      t.model.members = (parseModel garbage values).2 := by
  have hreadable := setUpAll_isSome_iff.mp defined
  obtain ⟨r, hr⟩ := setUp_isSome_iff.mpr fun hmode => hreadable hmode name (mem_of_getElem? hmem)
  have hspec := setUp_spec hr
  rw [← hspec.members] at hlookup
  obtain ⟨t, ht⟩ := start_isSome_iff.mpr hlookup
  obtain ⟨-, position, hmodel, -⟩ := start_spec ht
  refine ⟨t, runs_iff.mpr ⟨defined, name, values, r, 0, true, hmem, hr, ht⟩, ?_⟩
  rw [hmodel]
  exact ⟨hspec.modelconfig, hspec.members⟩

/-- With all the options that are marked as necessary, everything that the loop reads is
assigned. -/
theorem valid_of_start {name : Bytes} {values : StringMap} {r : Model} {now : Int}
    {connected : Bool} {t : Running} (hr : setUp mode garbage w (name, values) = some r)
    (ht : start garbage w now connected r = some t)
    (hkeys : ∀ key ∈ requiredKeys, ascii key ∈ values) : Valid garbage t := by
  have hparsed : (parseModel garbage values).1 = true := by
    rw [parseModel_true_iff]
    intro key hkey
    refine hkeys key ?_
    revert key
    decide
  have hconfigured := configured_parseModel hparsed
  have hspec := setUp_spec hr
  obtain ⟨-, position, hmodel, hconfig, hposition⟩ := start_spec ht
  rw [← hspec.members] at hconfigured
  obtain ⟨logPrefix, hprefix⟩ := Option.isSome_iff_exists.mp hspec.logPrefix
  obtain ⟨category, hcategory⟩ := Option.isSome_iff_exists.mp hspec.category
  constructor
  · rwa [hmodel, hspec.modelconfig]
  · rwa [hmodel, hspec.modelconfig]
  · refine ⟨_, by rw [hmodel, hconfigured.maxSendMsg], positiveOption_pos (by decide) _ _, ?_⟩
    rw [hconfig, Model.config, hconfigured.maxSendMsg, Option.getD_some]
  · refine ⟨_, by rw [hmodel, hconfigured.checkpointTime], positiveOption_pos (by decide) _ _, ?_⟩
    rw [hconfig, Model.config, hconfigured.checkpointTime, Option.getD_some]
  · exact ⟨position, by rw [hmodel], hposition⟩
  · refine ⟨logPrefix, by rw [hmodel, hprefix], ?_⟩
    rw [hconfig, Model.config, hprefix, Option.getD_some]
  · refine ⟨category, by rw [hmodel, hcategory], ?_⟩
    rw [hconfig, Model.config, hcategory, Option.getD_some]

end

theorem requiredKeys_iff {values : StringMap} :
    (∀ key ∈ requiredKeys, ascii key ∈ values) ↔
      (∀ key ∈ ["port", "host", "accesskey", "type", "from"], ascii key ∈ values) ∧
        ascii "path" ∈ values ∧
          ∀ key ∈ ["set", "backup_path", "log_server_port"], ascii key ∈ values := by
  simp only [requiredKeys, List.forall_mem_cons, List.not_mem_nil, false_imp_iff, implies_true,
    and_true]
  constructor
  · rintro ⟨hport, hhost, hpath, hbackup, haccesskey, htype, hset, hserver, hfrom⟩
    exact ⟨⟨hport, hhost, haccesskey, htype, hfrom⟩, hpath, hset, hbackup, hserver⟩
  · rintro ⟨⟨hport, hhost, haccesskey, htype, hfrom⟩, hpath, hset, hbackup, hserver⟩
    exact ⟨hport, hhost, hpath, hbackup, haccesskey, htype, hset, hserver, hfrom⟩

/-- For every config file and both modes: all threads are valid exactly when each section whose
log file comes to be opened has the three options behind the path that are marked as necessary.
With `-r` no thread starts if some record cannot be read. -/
theorem valid_iff_complete (mode : Mode) (garbage : String → Int) (w : World) (filename : Bytes) :
    (∀ t, Runs mode garbage w filename t → Valid garbage t) ↔
      ((mode = .r → ∀ name ∈ parseConfig (w.read filename), (w.read (readName name)).isSome) →
        ∀ (name : Bytes) (values : StringMap),
          (parseConfig (w.read filename))[name]? = some values → Complete w values) := by
  constructor
  · intro h hreadable name values hmem hkeys hpath
    obtain ⟨t, ht, hvalues, -⟩ := runs_of_lookup (setUpAll_isSome_iff.mpr hreadable) hmem
      (lookup_parseModel_isSome_iff.mpr ⟨hkeys, hpath⟩)
    have hrequired := (h t ht).required
    rw [hvalues] at hrequired
    exact (requiredKeys_iff.mp hrequired).2.2
  · intro h t ht
    obtain ⟨defined, name, values, r, now, connected, hmem, hr, ht⟩ := runs_iff.mp ht
    have hlookup := (start_spec ht).1
    rw [(setUp_spec hr).members] at hlookup
    obtain ⟨hkeys, hpath⟩ := lookup_parseModel_isSome_iff.mp hlookup
    obtain ⟨path, hmempath, hopens⟩ := hpath
    exact valid_of_start hr ht (requiredKeys_iff.mpr ⟨hkeys, mem_of_getElem? hmempath,
      h (setUpAll_isSome_iff.mp defined) name values hmem hkeys ⟨path, hmempath, hopens⟩⟩)

/-- The config file `c`, the log file `p` and the record of the model `a`. -/
def sampleWorld (config log record : Bytes) : World where
  lookup name :=
    if name = ascii "c" then some 0 else if name = ascii "p" then some 1
    else if name = readName (ascii "a") then some 2 else none
  file ino := if ino = 0 then config else if ino = 1 then log else record
  unnamed := by decide
  an := []
  lib := .cxx11

def withoutSet : Bytes :=
  ascii "[a]\nport=1\nhost=h\naccesskey=k\ntype=t\nfrom=f\npath=p\n"

/-- `parseModel` misses the data set, and the thread divides by a number that nobody has
assigned. -/
theorem not_valid_withoutSet :
    ∃ t, Runs .f (fun _ => 0) (sampleWorld withoutSet [] []) (ascii "c") t ∧
      t.model.members.checkpointTime = none ∧ ¬ Valid (fun _ => 0) t := by
  have defined : ∃ rs, main .f (fun _ => 0) (sampleWorld withoutSet [] []) (ascii "c") = some rs :=
    setUpAll_isSome_iff.mpr fun h => absurd h (by decide)
  have hmem : (parseConfig (some withoutSet))[ascii "a"]? =
      some ((parseConfig (some withoutSet)).getD (ascii "a") ∅) :=
    Std.ExtTreeMap.getElem?_eq_some_getD (by decide)
  obtain ⟨t, ht, -, hmembers⟩ := runs_of_lookup defined hmem (by decide)
  have hnone : t.model.members.checkpointTime = none := by
    rw [hmembers]
    decide
  refine ⟨t, ht, hnone, fun hvalid => ?_⟩
  obtain ⟨v, hv, -⟩ := hvalid.checkpointTime
  rw [hnone] at hv
  cases hv

end ModelRead
