import Logtail.Sections
import Logtail.Trimming
import Logtail.Checkpoint

/-!
# The config file

`conf::parseModel` collects the assignments of a section and stores them when the
next header or the end of the file comes. A line is trimmed first and then cut at
the comment; its size is taken as an `int`.
-/

namespace Conf

open Framing FileStream Checkpoint Sections Trimming

/-- `string_map_t` -/
abbrev StringMap := Std.ExtTreeMap Bytes Bytes compare

/-- `string_map_model` -/
abbrev StringMapModel := Std.ExtTreeMap Bytes StringMap compare

def hash : UInt8 := 35

def equals : UInt8 := 61

def lbracket : UInt8 := 91

def rbracket : UInt8 := 93

/-- The characters of `" \t"`. -/
def isBlank (b : UInt8) : Bool := b == space || b == 9

def trimString (str : Bytes) : Bytes := trim isBlank str

/-- `int length = line.size()` keeps the low 32 bits. -/
def intSize (line : Bytes) : Int := Int.bmod line.length (2 ^ 32)

/-- `parsed_config->models` and the local variables of `conf::parseModel`. -/
structure Locals where
  models : StringMapModel
  modelName : Bytes
  values : StringMap

/-- `if(model_name.size()>0){ parsed_config->models[model_name]=values; }` -/
def store (models : StringMapModel) (named : Bytes × StringMap) : StringMapModel :=
  if named.1.length > 0 then models.insert named.1 named.2 else models

/-- The line without surrounding blanks and without its comment. -/
def stripped (line : Bytes) : Bytes := upTo hash (trimString line)

/-- One round of the loop; an error carries the models that are stored by then. -/
def parseLine (c : Locals) (line : Bytes) : Except StringMapModel Locals :=
  let line := stripped line
  if 0 ≥ intSize line then .ok c
  else if line.head? = some lbracket then
    match cut rbracket line with
    | none => .error c.models
    | some (w, _) =>
      let models := store c.models (c.modelName, c.values)
      let modelName := w.drop 1
      let values := if 0 < c.values.size then ∅ else c.values
      if models.contains modelName then .error models
      else .ok ⟨models, modelName, values⟩
  else
    match cut equals line with
    | none => .ok c
    | some (arg, val) =>
      .ok { c with values := c.values.insert (trimString arg) (trimString val) }

/-- `conf::parseModel`: the return value and `parsed_config->models` afterwards. -/
def parseModel (rawConfig : List Bytes) (models : StringMapModel) : Bool × StringMapModel :=
  match rawConfig.foldlM parseLine ⟨models, [], ∅⟩ with
  | .error models => (false, models)
  | .ok c => (true, store c.models (c.modelName, c.values))

/-- `conf::readConfFile`: the lines that `getline` finds, none without a file. -/
def readConfFile (file : Option Bytes) : List Bytes :=
  match file with
  | none => []
  | some text => pieces newline text

/-- `conf::parseConfig` on a new `conf`; both results are ignored. -/
def parseConfig (file : Option Bytes) : StringMapModel := (parseModel (readConfFile file) ∅).2

/-- The name in a line that starts with a bracket, up to the first closing one. -/
def headerName (line : Bytes) : Option Bytes :=
  if (stripped line).head? = some lbracket then
    (cut rbracket (stripped line)).map fun p => p.1.drop 1
  else none

/-- The two sides of the first equals sign of any other line. -/
def assignment (line : Bytes) : Option (Bytes × Bytes) :=
  if (stripped line).head? = some lbracket then none
  else (cut equals (stripped line)).map fun p => (trimString p.1, trimString p.2)

/-- A bracket is opened and not closed. -/
def Unclosed (line : Bytes) : Prop :=
  (stripped line).head? = some lbracket ∧ rbracket ∉ stripped line

/-- The parser does not skip the line. -/
def Sized (line : Bytes) : Prop := 0 < intSize (stripped line)

instance (line : Bytes) : Decidable (Unclosed line) :=
  inferInstanceAs (Decidable (_ ∧ _))

instance (line : Bytes) : Decidable (Sized line) := inferInstanceAs (Decidable (_ < _))

/-- What the line adds to the stream of headers and assignments. -/
def lexLine (line : Bytes) : Option (Item Bytes Bytes Bytes) :=
  if Sized line then
    match headerName line with
    | some name => some (.header name)
    | none => (assignment line).map fun p => .entry p.1 p.2
  else none

def items (lines : List Bytes) : List (Item Bytes Bytes Bytes) := lines.filterMap lexLine

def Locals.collector (c : Locals) : Collector StringMapModel Bytes StringMap :=
  ⟨c.models, c.modelName, c.values⟩

/-- The collector of sections that the parser is. -/
abbrev collect :=
  Collector.collect (assign : StringMap → Bytes × Bytes → StringMap) ∅ store

theorem headerName_eq_some_iff {line name : Bytes} :
    headerName line = some name ↔ (stripped line).head? = some lbracket ∧
      ∃ w rest, cut rbracket (stripped line) = some (w, rest) ∧ name = w.drop 1 := by
  unfold headerName
  split
  · rename_i h
    simp [h, eq_comm]
  · rename_i h
    simp [h]

theorem not_unclosed_of_headerName {line name : Bytes} (h : headerName line = some name) :
    ¬ Unclosed line := by
  rintro ⟨-, hnot⟩
  obtain ⟨-, w, rest, hcut, -⟩ := headerName_eq_some_iff.mp h
  rw [(cut_eq_none_iff _ _).mpr hnot] at hcut
  cases hcut

theorem clear_values (values : StringMap) : (if 0 < values.size then ∅ else values) = ∅ := by
  split
  · rfl
  · rename_i h
    exact Std.ExtTreeMap.eq_empty_iff_size_eq_zero.mpr (by omega)

/-- What a round of the loop can do. -/
theorem parseLine_cases (c : Locals) (line : Bytes) :
    (lexLine line = none ∧ ¬ (Sized line ∧ Unclosed line) ∧ parseLine c line = .ok c) ∨
    (lexLine line = none ∧ Sized line ∧ Unclosed line ∧ parseLine c line = .error c.models) ∨
    (∃ arg val, lexLine line = some (.entry arg val) ∧ ¬ Unclosed line ∧
      parseLine c line = .ok { c with values := c.values.insert arg val }) ∨
    (∃ name, lexLine line = some (.header name) ∧ ¬ Unclosed line ∧
      parseLine c line =
        if name ∈ store c.models (c.modelName, c.values) then
          .error (store c.models (c.modelName, c.values))
        else .ok ⟨store c.models (c.modelName, c.values), name, ∅⟩) := by
  by_cases hsize : Sized line
  · have hpos : ¬ 0 ≥ intSize (stripped line) := not_le.mpr hsize
    simp only [parseLine, if_neg hpos, lexLine, if_pos hsize]
    by_cases hopen : (stripped line).head? = some lbracket
    · cases hcut : cut rbracket (stripped line) with
      | none =>
        have hnot := (cut_eq_none_iff _ _).mp hcut
        refine Or.inr (Or.inl ⟨?_, hsize, ⟨hopen, hnot⟩, ?_⟩)
        · simp [headerName, assignment, hopen, hcut]
        · rw [if_pos hopen]
      | some p =>
        obtain ⟨w, rest⟩ := p
        have hname : headerName line = some (w.drop 1) := by simp [headerName, hopen, hcut]
        refine Or.inr (Or.inr (Or.inr ⟨w.drop 1, ?_, not_unclosed_of_headerName hname, ?_⟩))
        · rw [hname]
        · rw [if_pos hopen, clear_values]
          simp only [Std.ExtTreeMap.contains_iff_mem]
    · have hclosed : ¬ Unclosed line := fun h => hopen h.1
      have hname : headerName line = none := by simp [headerName, hopen]
      cases hcut : cut equals (stripped line) with
      | none =>
        refine Or.inl ⟨?_, fun h => hclosed h.2, ?_⟩
        · simp [hname, assignment, hopen, hcut]
        · rw [if_neg hopen]
      | some p =>
        refine Or.inr (Or.inr (Or.inl ⟨trimString p.1, trimString p.2, ?_, hclosed, ?_⟩))
        · simp [hname, assignment, hopen, hcut]
        · rw [if_neg hopen]
  · have hskip : 0 ≥ intSize (stripped line) := not_lt.mp hsize
    refine Or.inl ⟨by rw [lexLine, if_neg hsize], fun h => hsize h.1, ?_⟩
    simp only [parseLine, if_pos hskip]

@[simp] theorem mem_store {models : StringMapModel} {name x : Bytes} {values : StringMap} :
    x ∈ store models (name, values) ↔ x ∈ models ∨ (name ≠ [] ∧ x = name) := by
  by_cases h : name = []
  · simp [store, h]
  · have hpos : name.length > 0 := List.length_pos_of_ne_nil h
    simp only [store, if_pos hpos, Std.ExtTreeMap.mem_insert, Std.LawfulEqCmp.compare_eq_iff_eq,
      ne_eq, h, not_false_iff, true_and]
    rw [or_comm, eq_comm]

theorem nil_not_mem_store {models : StringMapModel} (h : [] ∉ models)
    {named : Bytes × StringMap} : [] ∉ store models named := by
  rw [mem_store]
  rintro (hmem | ⟨hne, heq⟩)
  · exact h hmem
  · exact hne heq.symm

/-- The non-empty names in headers, in order. -/
def modelNames (lines : List Bytes) : List Bytes := (names (items lines)).filter (· ≠ [])

/-- What the loop accepts when it is entered with the locals `c`. -/
structure Accepted (c : Locals) (lines : List Bytes) : Prop where
  closed : ∀ line ∈ lines, ¬ (Sized line ∧ Unclosed line)
  nodup : (modelNames lines).Nodup
  fresh : ∀ name ∈ modelNames lines, name ∉ store c.models (c.modelName, c.values)

section

variable {c : Locals} {line name : Bytes} {lines : List Bytes}

theorem items_none (h : lexLine line = none) (lines : List Bytes) :
    items (line :: lines) = items lines :=
  List.filterMap_cons_none h

theorem items_some {item : Item Bytes Bytes Bytes} (h : lexLine line = some item)
    (lines : List Bytes) :
    items (line :: lines) = item :: items lines :=
  List.filterMap_cons_some h

theorem modelNames_none (h : lexLine line = none) (lines : List Bytes) :
    modelNames (line :: lines) = modelNames lines := by
  rw [modelNames, modelNames, items_none h]

theorem modelNames_entry {arg val : Bytes} (h : lexLine line = some (.entry arg val))
    (lines : List Bytes) : modelNames (line :: lines) = modelNames lines := by
  rw [modelNames, modelNames, items_some h, names]

theorem modelNames_header (h : lexLine line = some (.header name)) (lines : List Bytes) :
    modelNames (line :: lines) =
      if name = [] then modelNames lines else name :: modelNames lines := by
  by_cases hname : name = [] <;> simp [modelNames, items_some h, names, hname]

/-- A line that is no header changes nothing for the lines behind it. -/
theorem accepted_cons (hnames : modelNames (line :: lines) = modelNames lines)
    (hclosed : ¬ (Sized line ∧ Unclosed line)) {values : StringMap} :
    Accepted { c with values := values } lines ↔ Accepted c (line :: lines) := by
  constructor
  · rintro ⟨closed, nodup, fresh⟩
    refine ⟨List.forall_mem_cons.mpr ⟨hclosed, closed⟩, by rwa [hnames], ?_⟩
    simpa only [hnames, mem_store] using fresh
  · rintro ⟨closed, nodup, fresh⟩
    refine ⟨(List.forall_mem_cons.mp closed).2, by rwa [hnames] at nodup, ?_⟩
    simpa only [hnames, mem_store] using fresh

theorem accepted_header (h : lexLine line = some (.header name)) (hclosed : ¬ Unclosed line)
    (hempty : [] ∉ c.models) :
    Accepted c (line :: lines) ↔ name ∉ store c.models (c.modelName, c.values) ∧
      Accepted ⟨store c.models (c.modelName, c.values), name, ∅⟩ lines := by
  have hnames := modelNames_header h lines
  by_cases hname : name = []
  · rw [if_pos hname] at hnames
    subst hname
    constructor
    · rintro ⟨closed, nodup, fresh⟩
      refine ⟨nil_not_mem_store hempty, (List.forall_mem_cons.mp closed).2,
        by rwa [hnames] at nodup, ?_⟩
      intro x hx
      rw [mem_store]
      rintro (hmem | ⟨hne, -⟩)
      · exact fresh x (by rwa [hnames]) hmem
      · exact hne rfl
    · rintro ⟨-, closed, nodup, fresh⟩
      refine ⟨List.forall_mem_cons.mpr ⟨fun hc => hclosed hc.2, closed⟩, by rwa [hnames], ?_⟩
      intro x hx hmem
      exact fresh x (by rwa [hnames] at hx) (mem_store.mpr (Or.inl hmem))
  · rw [if_neg hname] at hnames
    constructor
    · rintro ⟨closed, nodup, fresh⟩
      rw [hnames] at nodup fresh
      obtain ⟨hnew, nodup⟩ := List.nodup_cons.mp nodup
      obtain ⟨hfresh, fresh⟩ := List.forall_mem_cons.mp fresh
      refine ⟨hfresh, (List.forall_mem_cons.mp closed).2, nodup, ?_⟩
      intro x hx
      rw [mem_store]
      rintro (hmem | ⟨-, rfl⟩)
      · exact fresh x hx hmem
      · exact hnew hx
    · rintro ⟨hfresh, closed, nodup, fresh⟩
      have hnew : name ∉ modelNames lines := fun hx =>
        fresh name hx (mem_store.mpr (Or.inr ⟨hname, rfl⟩))
      refine ⟨List.forall_mem_cons.mpr ⟨fun hc => hclosed hc.2, closed⟩, ?_, ?_⟩
      · rw [hnames]
        exact List.nodup_cons.mpr ⟨hnew, nodup⟩
      · rw [hnames]
        refine List.forall_mem_cons.mpr ⟨hfresh, ?_⟩
        intro x hx hmem
        exact fresh x hx (mem_store.mpr (Or.inl hmem))

end

/-- The loop ends without an error exactly when the lines are accepted, and it has then
collected the sections of the stream. -/
theorem foldlM_parseLine (lines : List Bytes) {c : Locals} (hempty : [] ∉ c.models) :
    (Accepted c lines → ∃ c', lines.foldlM parseLine c = .ok c') ∧
      ∀ c', lines.foldlM parseLine c = .ok c' → Accepted c lines ∧
        c'.collector = (items lines).foldl collect c.collector := by
  induction lines generalizing c with
  | nil =>
    refine ⟨fun _ => ⟨c, rfl⟩, ?_⟩
    intro c' h
    obtain rfl := Except.ok.inj h
    exact ⟨⟨by simp, by simp [modelNames, items, names], by simp [modelNames, items, names]⟩, rfl⟩
  | cons line lines ih =>
    rw [List.foldlM_cons]
    rcases parseLine_cases c line with ⟨hlex, hclosed, hline⟩ | ⟨hlex, hsize, hopen, hline⟩ |
      ⟨arg, val, hlex, hclosed, hline⟩ | ⟨name, hlex, hclosed, hline⟩
    · have hskip : Accepted c lines ↔ Accepted c (line :: lines) :=
        accepted_cons (modelNames_none hlex lines) hclosed
      rw [hline, items_none hlex, ← hskip]
      exact ih hempty
    · rw [hline]
      constructor
      · rintro ⟨closed, -, -⟩
        exact absurd ⟨hsize, hopen⟩ (closed line List.mem_cons_self)
      · intro c' hc'
        cases hc'
    · have hentry : Accepted { c with values := c.values.insert arg val } lines ↔
          Accepted c (line :: lines) :=
        accepted_cons (modelNames_entry hlex lines) fun h => hclosed h.2
      rw [hline, items_some hlex, ← hentry]
      exact ih hempty
    · rw [hline, items_some hlex, accepted_header hlex hclosed hempty]
      split
      · rename_i hmem
        constructor
        · rintro ⟨hfresh, -⟩
          exact absurd hmem hfresh
        · intro c' hc'
          cases hc'
      · rename_i hmem
        obtain ⟨hok, hall⟩ :=
          ih (c := ⟨store c.models (c.modelName, c.values), name, ∅⟩) (nil_not_mem_store hempty)
        refine ⟨fun h => hok h.2, ?_⟩
        intro c' hc'
        obtain ⟨haccepted, hcollector⟩ := hall c' hc'
        exact ⟨⟨hmem, haccepted⟩, hcollector⟩

def fresh : Locals := ⟨∅, [], ∅⟩

theorem accepted_fresh {lines : List Bytes} :
    Accepted fresh lines ↔
      (∀ line ∈ lines, ¬ (Sized line ∧ Unclosed line)) ∧ (modelNames lines).Nodup := by
  constructor
  · rintro ⟨closed, nodup, -⟩
    exact ⟨closed, nodup⟩
  · rintro ⟨closed, nodup⟩
    exact ⟨closed, nodup, by simp [fresh]⟩

/-- The assignments of a section as they are stored. -/
def sectionValues (s : Bytes × List (Bytes × Bytes)) : Bytes × StringMap :=
  (s.1, fill s.2)

/-- The sections that are stored, in order. -/
def stored (lines : List Bytes) : List (Bytes × StringMap) :=
  ((sections (items lines)).filter fun s => s.1 ≠ []).map sectionValues

theorem foldl_store (ss : List (Bytes × StringMap)) (models : StringMapModel) :
    ss.foldl store models = (ss.filter fun s => s.1 ≠ []).foldl assign models := by
  induction ss generalizing models with
  | nil => rfl
  | cons s ss ih =>
    rw [List.foldl_cons, ih]
    by_cases h : s.1 = []
    · simp [store, h]
    · have hpos : s.1.length > 0 := List.length_pos_of_ne_nil h
      simp [store, h, hpos, assign]

theorem stored_map_fst (lines : List Bytes) : (stored lines).map Prod.fst = modelNames lines := by
  rw [modelNames, ← sections_map_fst, List.filter_map, stored, List.map_map]
  rfl

theorem flush_fresh (lines : List Bytes) :
    ((items lines).foldl collect fresh.collector).flush store = fill (stored lines) := by
  rw [Collector.flush_collect, foldl_store, stored, fill,
    List.filter_cons_of_neg (by simp [fresh, Locals.collector]), List.filter_map]
  rfl

/-- The return value, and the models after a success. -/
theorem parseModel_fresh (lines : List Bytes) :
    ((parseModel lines ∅).1 = true ↔ Accepted fresh lines) ∧
      ((parseModel lines ∅).1 = true →
        parseModel lines ∅ = (true, fill (stored lines))) := by
  obtain ⟨hok, hall⟩ := foldlM_parseLine lines (c := fresh) (by simp [fresh])
  cases hrun : lines.foldlM parseLine fresh with
  | error models =>
    have hfalse : parseModel lines ∅ = (false, models) := by
      rw [parseModel, show (⟨∅, [], ∅⟩ : Locals) = fresh from rfl, hrun]
    rw [hfalse]
    refine ⟨⟨nofun, ?_⟩, nofun⟩
    intro h
    obtain ⟨c', hc'⟩ := hok h
    rw [hrun] at hc'
    cases hc'
  | ok c' =>
    obtain ⟨haccepted, hcollector⟩ := hall c' hrun
    have htrue : parseModel lines ∅ = (true, fill (stored lines)) := by
      rw [← flush_fresh, ← hcollector, parseModel, show (⟨∅, [], ∅⟩ : Locals) = fresh from rfl,
        hrun]
      rfl
    rw [htrue]
    exact ⟨⟨fun _ => haccepted, fun _ => rfl⟩, fun _ => rfl⟩

theorem getElem?_stored {lines : List Bytes} (h : (modelNames lines).Nodup) {name : Bytes}
    {values : StringMap} :
    (fill (stored lines) : StringMapModel)[name]? = some values ↔
      name ≠ [] ∧ ∃ es, (name, es) ∈ sections (items lines) ∧ values = fill es := by
  rw [getElem?_fill, lastValue_of_nodup (by rwa [stored_map_fst]), stored, List.mem_map]
  constructor
  · rintro ⟨⟨n, es⟩, hmem, heq⟩
    obtain ⟨rfl, rfl⟩ := Prod.mk.inj heq
    obtain ⟨hmem, hne⟩ := List.mem_filter.mp hmem
    exact ⟨of_decide_eq_true hne, es, hmem, rfl⟩
  · rintro ⟨hne, es, hmem, rfl⟩
    exact ⟨(name, es), List.mem_filter.mpr ⟨hmem, decide_eq_true hne⟩, rfl⟩

/-- What a line without a header assigns, unless the parser skips it. -/
def lexAssignment (line : Bytes) : Option (Bytes × Bytes) :=
  if Sized line then assignment line else none

section

variable {before between after : List Bytes} {header name : Bytes}

theorem body_items (hbetween : ∀ line ∈ between, headerName line = none) (after : List Bytes) :
    body (items (between ++ after)) = between.filterMap lexAssignment ++ body (items after) := by
  induction between with
  | nil => rfl
  | cons line between ih =>
    obtain ⟨hline, hbetween⟩ := List.forall_mem_cons.mp hbetween
    have hrest := ih hbetween
    by_cases hsize : Sized line
    · cases hassign : assignment line with
      | none =>
        have hlex : lexLine line = none := by simp [lexLine, hsize, hline, hassign]
        rw [List.cons_append, items_none hlex, hrest, List.filterMap_cons_none]
        simp [lexAssignment, hsize, hassign]
      | some p =>
        have hlex : lexLine line = some (.entry p.1 p.2) := by
          simp [lexLine, hsize, hline, hassign]
        have hlexed : lexAssignment line = some p := by simp [lexAssignment, hsize, hassign]
        rw [List.cons_append, items_some hlex, body_entry, hrest, List.filterMap_cons_some hlexed,
          List.cons_append]
    · have hlex : lexLine line = none := by simp [lexLine, hsize]
      rw [List.cons_append, items_none hlex, hrest, List.filterMap_cons_none]
      simp [lexAssignment, hsize]

theorem items_append (lines rest : List Bytes) :
    items (lines ++ rest) = items lines ++ items rest :=
  List.filterMap_append

theorem lexLine_header (hsize : Sized header) (hname : headerName header = some name) :
    lexLine header = some (.header name) := by
  simp [lexLine, hsize, hname]

/-- A section of the text is a section of the stream. -/
theorem mem_sections (hsize : Sized header) (hname : headerName header = some name)
    (hbetween : ∀ line ∈ between, headerName line = none)
    (hafter : ∀ line ∈ after.head?, Sized line ∧ (headerName line).isSome) :
    (name, between.filterMap lexAssignment) ∈
      sections (items (before ++ header :: (between ++ after))) := by
  have hend : body (items after) = [] := by
    cases after with
    | nil => rfl
    | cons line after =>
      obtain ⟨hline, hsome⟩ := hafter line rfl
      obtain ⟨n, hn⟩ := Option.isSome_iff_exists.mp hsome
      rw [items_some (lexLine_header hline hn), body_header]
  have hbody := body_items hbetween after
  rw [hend, List.append_nil] at hbody
  rw [items_append, items_some (lexLine_header hsize hname),
    (sections_append _ _ (body_header name _)).1, sections, hbody]
  simp

end

theorem length_upTo_le (d : UInt8) (line : Bytes) : (upTo d line).length ≤ line.length := by
  rcases cut_cases d line with h | ⟨w, rest, rfl, hw⟩
  · rw [upTo_of_not_mem h]
  · rw [upTo_append hw, List.length_append]
    omega

theorem length_stripped_le (line : Bytes) : (stripped line).length ≤ line.length :=
  (length_upTo_le hash (trimString line)).trans (length_trim_le line)

theorem intSize_of_lt {line : Bytes} (short : line.length < 2 ^ 31) :
    intSize line = line.length := by
  have lo : (-((2 ^ 32 : Nat) / 2) : Int) ≤ line.length := by omega
  have hi : (line.length : Int) < ((2 ^ 32 : Nat) + 1) / 2 := by omega
  exact Int.bmod_eq_of_le lo hi

theorem sized_iff {line : Bytes} (short : line.length < 2 ^ 31) :
    Sized line ↔ stripped line ≠ [] := by
  have hle := length_stripped_le line
  rw [Sized, intSize_of_lt (by omega), ← List.length_pos_iff]
  omega

end Conf
