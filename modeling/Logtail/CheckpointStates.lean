import Logtail.Launch

/-!
# A start with any checkpoint files

With `-r` the record of every model is looked up and read without a test. A record
that cannot be read leaves nothing to find; one that names the path of the model
is believed, whatever stands where the position should.
-/

namespace ModelRead

open Framing FileStream ScribeSend Checkpoint Conf

/-- The record of the model names its log file and a position in some file. -/
def Usable (w : World) (r : Model) : Prop :=
  ∃ map, getcheckpoint (w.read (readName r.modelname)) = some map ∧ map.checkPath = r.members.path ∧
    ∃ v, leadingInteger map.checkPosition = some v ∧ 0 ≤ v

/-- What a start with `-r` should be safe from: nothing is looked up that is not there, the
positions that are taken over have been read, and those that are found lie in the file. -/
structure Safe (w : World) (models : StringMapModel) : Prop where
  lookups : ∀ garbage, ∃ rs, setUpAll .r garbage w models = some rs
  numbers : ∀ garbage rs, setUpAll .r garbage w models = some rs → ∀ r ∈ rs, r.isreload = true →
    ∃ map p, getcheckpoint (w.read (readName r.modelname)) = some map ∧
      stringToInt map.checkPosition = some p ∧ r.position = some p
  positions : ∀ garbage rs, setUpAll .r garbage w models = some rs → ∀ r ∈ rs, ∀ r' oStat,
    r.openLogFile garbage w = some (r', oStat) →
      (∃ p, r'.position = some p ∧ 0 ≤ p ∧ p ≤ oStat.stSize) ∧
        (¬ Usable w r → r'.isreload = false)

/-- The record can be read, and if it names this path there is something in the place of the
position, and if the log file can be opened, a number that is not negative. -/
def Restorable (w : World) (name path : Bytes) : Prop :=
  ∃ map, getcheckpoint (w.read (readName name)) = some map ∧
    (map.checkPath = path → ¬ Blank map.checkPosition ∧
      ((w.lookup path).isSome → ∃ v, leadingInteger map.checkPosition = some v ∧ 0 ≤ v))

section

variable {garbage : String → Int} {w : World} {name : Bytes} {values : StringMap} {r : Model}

/-- What `reload` makes of the record. -/
theorem setUp_reload (h : setUp .r garbage w (name, values) = some r) :
    ∃ map, getcheckpoint (w.read (readName name)) = some map ∧
      (map.checkPath = r.members.path → r.isreload = true ∧
        r.position = some ((stringToInt map.checkPosition).getD (garbage "check_position"))) ∧
      (map.checkPath ≠ r.members.path → r.isreload = false) := by
  obtain ⟨map, hmap, rfl⟩ := Option.map_eq_some_iff.mp h
  refine ⟨map, hmap, ?_, ?_⟩
  · intro hpath
    have hreload : ModelRead.reload ((configured garbage w name values).config garbage w 0)
        (garbage "check_position") map (garbage "position") =
          (true, (stringToInt map.checkPosition).getD (garbage "check_position")) :=
      if_pos hpath.symm
    simp only [Model.makePrefixCategory, Model.reload, hreload, if_true, and_self]
  · intro hpath
    have hreload : ModelRead.reload ((configured garbage w name values).config garbage w 0)
        (garbage "check_position") map (garbage "position") = (false, garbage "position") :=
      if_neg (Ne.symm hpath)
    simp only [Model.makePrefixCategory, Model.reload, hreload]

theorem clamp_nonneg {v : Int} (h : 0 ≤ v) : 0 ≤ clamp v := by
  unfold clamp
  omega

theorem Restorable.number (h : Restorable w name r.members.path)
    (hr : setUp .r garbage w (name, values) = some r) (hreload : r.isreload = true) :
    ∃ map p, getcheckpoint (w.read (readName r.modelname)) = some map ∧
      stringToInt map.checkPosition = some p ∧ r.position = some p := by
  obtain ⟨map, hmap, htrue, hfalse⟩ := setUp_reload hr
  obtain ⟨map', hmap', hpath⟩ := h
  obtain rfl := Option.some.inj (hmap.symm.trans hmap')
  by_cases hnames : map.checkPath = r.members.path
  · have hread := stringToInt_of_not_blank (hpath hnames).1
    have hposition := (htrue hnames).2
    rw [hread, Option.getD_some] at hposition
    exact ⟨map, _, by rwa [(setUp_spec hr).modelname], hread, hposition⟩
  · rw [hfalse hnames] at hreload
    cases hreload

/-- Of a restorable record the position is read, and it lies in the file in the end. -/
theorem Restorable.position {r' : Model} {oStat : Stat} (h : Restorable w name r.members.path)
    (hr : setUp .r garbage w (name, values) = some r)
    (hopen : r.openLogFile garbage w = some (r', oStat)) :
    (∃ p, r'.position = some p ∧ 0 ≤ p ∧ p ≤ oStat.stSize) ∧
      (¬ Usable w r → r'.isreload = false) := by
  obtain ⟨map, hmap, htrue, hfalse⟩ := setUp_reload hr
  obtain ⟨map', hmap', hpath⟩ := h
  obtain rfl := Option.some.inj (hmap.symm.trans hmap')
  obtain ⟨ino, hlookup, rfl, rfl⟩ := openLogFile_spec hopen
  by_cases hnames : map.checkPath = r.members.path
  · obtain ⟨hblank, hnumber⟩ := hpath hnames
    obtain ⟨v, hv, hpos⟩ := hnumber (by rw [hlookup]; rfl)
    obtain ⟨hreload, hposition⟩ := htrue hnames
    have hread : stringToInt map.checkPosition = some (clamp v) := by
      rw [stringToInt_of_not_blank hblank, hv, Option.getD_some]
    have hclamp := clamp_nonneg hpos
    constructor
    · rw [hreload, hposition, hread]
      exact ⟨_, rfl, by simp only [if_true, Option.getD_some]; omega, by simp⟩
    · intro hnot
      have hmodelname := (setUp_spec hr).modelname
      exact absurd ⟨map, by rwa [hmodelname], hnames, v, hv, hpos⟩ hnot
  · have hreload := hfalse hnames
    constructor
    · rw [hreload]
      exact ⟨_, rfl, by simp, by simp⟩
    · intro _
      exact hreload

/-- A model whose start is safe has a restorable record. -/
theorem restorable_of_start (hr : setUp .r garbage w (name, values) = some r)
    (number : r.isreload = true →
      ∃ map p, getcheckpoint (w.read (readName r.modelname)) = some map ∧
      stringToInt map.checkPosition = some p ∧ r.position = some p)
    (nonReload : ∀ r' oStat, r.openLogFile garbage w = some (r', oStat) → ¬ Usable w r →
      r'.isreload = false) : Restorable w name r.members.path := by
  obtain ⟨map, hmap, htrue, -⟩ := setUp_reload hr
  have hmodelname := (setUp_spec hr).modelname
  rw [hmodelname] at number
  refine ⟨map, hmap, fun hnames => ⟨?_, fun hopens => ?_⟩⟩
  · obtain ⟨map', p, hmap', hp, -⟩ := number (htrue hnames).1
    obtain rfl := Option.some.inj (hmap.symm.trans hmap')
    intro hblank
    rw [stringToInt_blank hblank] at hp
    cases hp
  · obtain ⟨⟨r', oStat⟩, hopen⟩ := openLogFile_isSome_iff.mpr hopens
    have husable : Usable w r := by
      by_contra hnot
      have hfalse := nonReload r' oStat hopen hnot
      obtain ⟨ino, hlookup, rfl, rfl⟩ := openLogFile_spec hopen
      rw [(htrue hnames).1] at hfalse
      cases hfalse
    obtain ⟨map', hmap', -, hnumber⟩ := husable
    rw [hmodelname] at hmap'
    obtain rfl := Option.some.inj (hmap.symm.trans hmap')
    exact hnumber

theorem path_setUp {garbage' : String → Int} (accepted : (parseModel garbage' values).1 = true)
    (hr : setUp .r garbage w (name, values) = some r) :
    values[ascii "path"]? = some r.members.path := by
  rw [(setUp_spec hr).members]
  exact (configured_parseModel (parseModel_true_iff.mpr (parseModel_true_iff.mp accepted))).path

end

/-- For all accepted models and all states of the checkpoint files: the start is safe exactly
when every model has a restorable record. -/
theorem safe_iff_restorable (w : World) (models : StringMapModel)
    (accepted : ∀ (name : Bytes) (values : StringMap), models[name]? = some values →
      ∃ garbage, (parseModel garbage values).1 = true) :
    Safe w models ↔ ∀ (name : Bytes) (values : StringMap) (path : Bytes),
      models[name]? = some values → values[ascii "path"]? = some path → Restorable w name path := by
  constructor
  · intro h name values path hmem hpath
    obtain ⟨garbage, hparsed⟩ := accepted name values hmem
    obtain ⟨rs, hrs⟩ := h.lookups garbage
    have hreadable := setUpAll_isSome_iff.mp ⟨rs, hrs⟩ rfl name (mem_of_getElem? hmem)
    obtain ⟨r, hr⟩ := setUp_isSome_iff.mpr fun _ => hreadable
    have hmemr := (mem_setUpAll hrs).mpr ⟨name, values, hmem, hr⟩
    obtain rfl := Option.some.inj (hpath.symm.trans (path_setUp hparsed hr))
    refine restorable_of_start hr (h.numbers garbage rs hrs r hmemr) fun r' oStat hopen => ?_
    exact (h.positions garbage rs hrs r hmemr r' oStat hopen).2
  · intro h
    have hrestorable : ∀ (garbage : String → Int) (name : Bytes) (values : StringMap) (r : Model),
        models[name]? = some values → setUp .r garbage w (name, values) = some r →
        Restorable w name r.members.path := by
      intro garbage name values r hmem hr
      obtain ⟨garbage', hparsed⟩ := accepted name values hmem
      exact h name values r.members.path hmem (path_setUp hparsed hr)
    refine ⟨?_, ?_, ?_⟩
    · intro garbage
      refine setUpAll_isSome_iff.mpr fun _ name hname => ?_
      obtain ⟨values, hmem⟩ := Option.isSome_iff_exists.mp
        (Std.ExtTreeMap.mem_iff_isSome_getElem?.mp hname)
      obtain ⟨garbage', hparsed⟩ := accepted name values hmem
      obtain ⟨map, hmap, -⟩ := h name values _ hmem (configured_parseModel hparsed).path
      exact getcheckpoint_isSome_iff.mp ⟨map, hmap⟩
    · intro garbage rs hrs r hr hreload
      obtain ⟨name, values, hmem, hr⟩ := (mem_setUpAll hrs).mp hr
      exact (hrestorable garbage name values r hmem hr).number hr hreload
    · intro garbage rs hrs r hr r' oStat hopen
      obtain ⟨name, values, hmem, hr⟩ := (mem_setUpAll hrs).mp hr
      exact (hrestorable garbage name values r hmem hr).position hr hopen

/-- A config with one section. -/
def sampleModels (name : Bytes) : StringMapModel :=
  Sections.fill [(name, Sections.fill (sampleEntries []))]

theorem getElem?_sampleModels {sample name : Bytes} {values : StringMap}
    (h : (sampleModels sample)[name]? = some values) :
    name = sample ∧ values = Sections.fill (sampleEntries []) := by
  rw [sampleModels, Sections.getElem?_fill, Sections.lastValue_of_nodup (by simp),
    List.mem_singleton] at h
  exact Prod.mk.inj h

/-- The record names the path, and the position 1. -/
theorem safe_wholeRecord :
    Safe (sampleWorld [] (ascii "ab") (checkpointLine 5 1 (ascii "p")))
      (sampleModels (ascii "a")) := by
  refine (safe_iff_restorable _ (sampleModels (ascii "a")) ?_).mpr ?_
  · intro name values h
    obtain ⟨rfl, rfl⟩ := getElem?_sampleModels h
    exact ⟨fun _ => 0, accepted_sampleEntries _ []⟩
  · intro name values path h hpath
    obtain ⟨rfl, rfl⟩ := getElem?_sampleModels h
    rw [Sections.getElem?_fill] at hpath
    obtain rfl := Option.some.inj
      ((by decide : Sections.lastValue _ _ = some (ascii "p")).symm.trans hpath)
    refine ⟨⟨ascii "5", ascii "1", ascii "p"⟩, by decide, fun _ => ⟨by decide, fun _ => ?_⟩⟩
    exact ⟨1, by decide, by decide⟩

/-- A section `b` is new in the config, and has no record yet. -/
theorem not_safe_newSection :
    (∀ (name : Bytes) (values : StringMap), (sampleModels (ascii "b"))[name]? = some values →
      (parseModel (fun _ => 0) values).1 = true) ∧
      ¬ Safe (sampleWorld [] (ascii "ab") (checkpointLine 5 1 (ascii "p")))
        (sampleModels (ascii "b")) := by
  constructor
  · intro name values h
    obtain ⟨rfl, rfl⟩ := getElem?_sampleModels h
    exact accepted_sampleEntries _ []
  · intro h
    have hreadable := setUpAll_isSome_iff.mp (h.lookups fun _ => 0) rfl (ascii "b")
      ((Sections.mem_fill _ _).mpr (by decide))
    exact absurd hreadable (by decide)

end ModelRead
