import Logtail.ConfGrammar

/-!
# Written and read back

A config file in any order and layout: blanks around lines and around `=`, blank
lines, comment lines and comments behind a line. The parser finds the models
again, unless the size of a line does not fit an `int`.
-/

namespace Conf

open Framing FileStream Checkpoint Sections Trimming

def Blanks (ws : Bytes) : Prop := ∀ b ∈ ws, isBlank b

/-- Blanks, with or without a comment behind them. -/
inductive LineEnd : Bytes → Prop where
  | blanks {ws : Bytes} (h : Blanks ws) : LineEnd ws
  | comment {ws : Bytes} (h : Blanks ws) (text : Bytes) : LineEnd (ws ++ hash :: text)

inductive HeaderLine (name : Bytes) : Bytes → Prop where
  | mk {ws tail : Bytes} (h : Blanks ws) (tail_end : LineEnd tail) :
    HeaderLine name (ws ++ lbracket :: (name ++ rbracket :: tail))

inductive AssignLine (key value : Bytes) : Bytes → Prop where
  | mk {ws before behind tail : Bytes} (h : Blanks ws) (hbefore : Blanks before)
    (hbehind : Blanks behind) (tail_end : LineEnd tail) :
    AssignLine key value (ws ++ key ++ before ++ equals :: (behind ++ value ++ tail))

/-- Lines that make these assignments in this order, and others that make none. -/
inductive BodyLines : List (Bytes × Bytes) → List Bytes → Prop where
  | nil : BodyLines [] []
  | other {line : Bytes} {es : List (Bytes × Bytes)} {lines : List Bytes} (h : LineEnd line)
    (rest : BodyLines es lines) : BodyLines es (line :: lines)
  | assign {key value line : Bytes} {es : List (Bytes × Bytes)} {lines : List Bytes}
    (h : AssignLine key value line) (rest : BodyLines es lines) :
    BodyLines ((key, value) :: es) (line :: lines)

/-- The sections of the models in this order, each with its entries in some order. -/
inductive Written : List (Bytes × StringMap) → List Bytes → Prop where
  | nil : Written [] []
  | cons {name header : Bytes} {values : StringMap} {es : List (Bytes × Bytes)}
    {between rest : List Bytes} {order : List (Bytes × StringMap)} (h : HeaderLine name header)
    (entries : Enumerates values es) (lines : BodyLines es between) (others : Written order rest) :
    Written ((name, values) :: order) (header :: (between ++ rest))

/-- The file writes the models down. -/
structure ConfigFile (models : StringMapModel) (text : Bytes) : Prop where
  written : ∃ top order lines, pieces newline text = top ++ lines ∧ (∀ line ∈ top, LineEnd line) ∧
    Enumerates models order ∧ Written order lines

structure WritableEntry (key value : Bytes) : Prop where
  key_trimmed : trimString key = key
  key_head : key.head? ≠ some lbracket
  key_equals : equals ∉ key
  key_hash : hash ∉ key
  key_newline : newline ∉ key
  value_trimmed : trimString value = value
  value_hash : hash ∉ value
  value_newline : newline ∉ value

structure WritableSection (name : Bytes) (values : StringMap) : Prop where
  nonempty : name ≠ []
  name_rbracket : rbracket ∉ name
  name_hash : hash ∉ name
  name_newline : newline ∉ name
  entries : ∀ key value, values[key]? = some value → WritableEntry key value

/-- The models that a config file can hold. -/
def Writable (models : StringMapModel) : Prop :=
  ∀ name values, models[name]? = some values → WritableSection name values

section

variable {line name key value : Bytes}

theorem stripped_lineEnd (h : LineEnd line) : stripped line = [] := by
  cases h with
  | blanks h =>
    rw [stripped, trimString, trim_of_pos h]
    rfl
  | comment h text =>
    have hhash : ¬ isBlank hash := by decide
    rw [stripped, trimString, trim_append_cons _ hhash, List.dropWhile_eq_nil_iff.mpr h]
    rfl

theorem not_mem_of_blanks {d : UInt8} {ws : Bytes} (h : Blanks ws) (hd : ¬ isBlank d) : d ∉ ws :=
  fun hmem => hd (h d hmem)

/-- The comment and the blanks in front of it do not reach the text before them. -/
theorem trimString_lineEnd {w tail : Bytes} (hw : hash ∉ w) (h : LineEnd tail) :
    trimString (upTo hash ((w ++ tail).rdropWhile isBlank)) = trimString w := by
  have hhash : ¬ isBlank hash := by decide
  cases h with
  | blanks h =>
    have hnot : hash ∉ (w ++ tail).rdropWhile isBlank := by
      intro hmem
      rcases List.mem_append.mp ((List.rdropWhile_prefix isBlank _).subset hmem) with hmem | hmem
      · exact hw hmem
      · exact not_mem_of_blanks h hhash hmem
    rw [upTo_of_not_mem hnot, trimString, trim_rdropWhile, trim_append_right w h]
    rfl
  | comment h text =>
    rename_i ws
    have hnot : hash ∉ w ++ ws := by simp [hw, not_mem_of_blanks h hhash]
    rw [← List.append_assoc, rdropWhile_append_cons _ hhash, upTo_append hnot, trimString,
      trim_append_right w h]
    rfl

theorem stripped_headerLine (h : HeaderLine name line) (hhash : hash ∉ name) :
    ∃ rest, stripped line = lbracket :: (name ++ rbracket :: rest) := by
  obtain ⟨hws, -⟩ := h
  rename_i ws tail
  have hlbracket : ¬ isBlank lbracket := by decide
  have hblank : ¬ isBlank rbracket := by decide
  have hnot : hash ∉ lbracket :: (name ++ [rbracket]) := by
    simp [hhash, show hash ≠ lbracket by decide, show hash ≠ rbracket by decide]
  have hcut := upTo_append_of_not_mem hnot (tail.rdropWhile isBlank)
  refine ⟨upTo hash (tail.rdropWhile isBlank), ?_⟩
  rw [stripped, trimString, trim_append_cons _ hlbracket, List.dropWhile_eq_nil_iff.mpr hws,
    rdropWhile_append_cons _ hblank]
  simpa using hcut

theorem headerName_headerLine (h : HeaderLine name line) (hrbracket : rbracket ∉ name)
    (hhash : hash ∉ name) : headerName line = some name := by
  obtain ⟨rest, hrest⟩ := stripped_headerLine h hhash
  have hnot : rbracket ∉ lbracket :: name := by
    simp [hrbracket, show rbracket ≠ lbracket by decide]
  rw [headerName_eq_some_iff, hrest]
  refine ⟨rfl, lbracket :: name, rest, ?_, rfl⟩
  exact (cut_eq_some_iff _ _ _ _).mpr ⟨rfl, hnot⟩

/-- A trimmed key with blanks around it. -/
theorem dropWhile_key {ws before : Bytes} (hws : Blanks ws) (hbefore : Blanks before)
    (trimmed : trimString key = key) (hhead : key.head? ≠ some lbracket) :
    ((ws ++ key ++ before).dropWhile isBlank).head? ≠ some lbracket := by
  rw [List.append_assoc, List.dropWhile_append_of_pos hws]
  cases key with
  | nil => simp [List.dropWhile_eq_nil_iff.mpr hbefore]
  | cons b key =>
    have hb : ¬ isBlank b := by
      intro hb
      have hlen := length_trim_le (p := isBlank) key
      rw [trimString, trim, List.dropWhile_cons_of_pos hb] at trimmed
      have hle := congrArg List.length trimmed
      rw [trim] at hlen
      rw [hle, List.length_cons] at hlen
      omega
    rw [List.cons_append, List.dropWhile_cons_of_neg hb]
    exact hhead

theorem assignLine_spec (h : AssignLine key value line) (entry : WritableEntry key value) :
    headerName line = none ∧ assignment line = some (key, value) := by
  obtain ⟨hws, hbefore, hbehind, htail⟩ := h
  rename_i ws before behind tail
  have hequals : ¬ isBlank equals := by decide
  have hhash : ¬ isBlank hash := by decide
  have hlead : ∀ d, d ∉ key → ¬ isBlank d → d ∉ (ws ++ key ++ before).dropWhile isBlank := by
    intro d hkey hd hmem
    have hmem' := (List.dropWhile_suffix isBlank).subset hmem
    simp [hkey, not_mem_of_blanks hws hd, not_mem_of_blanks hbefore hd] at hmem'
  have hstripped : stripped (ws ++ key ++ before ++ equals :: (behind ++ value ++ tail)) =
      (ws ++ key ++ before).dropWhile isBlank ++
        equals :: upTo hash ((behind ++ value ++ tail).rdropWhile isBlank) := by
    have hnot : hash ∉ (ws ++ key ++ before).dropWhile isBlank ++ [equals] := by
      rw [List.mem_append, List.mem_singleton]
      rintro (hmem | heq)
      · exact hlead hash entry.key_hash hhash hmem
      · exact absurd heq (by decide)
    have hcut := upTo_append_of_not_mem hnot ((behind ++ value ++ tail).rdropWhile isBlank)
    rw [stripped, trimString, trim_append_cons _ hequals]
    simpa using hcut
  have hhead : (stripped (ws ++ key ++ before ++ equals :: (behind ++ value ++ tail))).head? ≠
      some lbracket := by
    rw [hstripped, List.head?_append]
    have hkey := dropWhile_key hws hbefore entry.key_trimmed entry.key_head
    cases hdrop : ((ws ++ key ++ before).dropWhile isBlank).head? with
    | none => simp [show equals ≠ lbracket by decide]
    | some b =>
      rw [hdrop] at hkey
      exact hkey
  constructor
  · rw [headerName, if_neg hhead]
  · have hcut := (cut_eq_some_iff equals _ _ _).mpr
      ⟨hstripped, hlead equals entry.key_equals hequals⟩
    have hvalue : hash ∉ behind ++ value := by
      simp [entry.value_hash, not_mem_of_blanks hbehind hhash]
    rw [assignment, if_neg hhead, hcut, Option.map_some, trimString_lineEnd hvalue htail]
    simp only [trimString, trim_dropWhile, trim_append_right _ hbefore, trim_append_left hws,
      trim_append_left hbehind]
    rw [← trimString, ← trimString, entry.key_trimmed, entry.value_trimmed]

end

/-- The lines `between` are the section of `name` and hold its values. -/
structure SectionOf (named : Bytes × StringMap) (between lines : List Bytes) : Prop where
  placed : ∃ before header after, lines = before ++ header :: (between ++ after) ∧
    headerName header = some named.1 ∧ ∀ line ∈ after.head?, (headerName line).isSome
  quiet : ∀ line ∈ between, headerName line = none
  entries : Enumerates named.2 (between.filterMap assignment)

/-- What the lines of a file in this order are. -/
structure Laid (order : List (Bytes × StringMap)) (lines : List Bytes) : Prop where
  names : lines.filterMap headerName = order.map Prod.fst
  sections : ∀ named ∈ order, ∃ between, SectionOf named between lines
  lines : ∀ line ∈ lines, stripped line = [] ∨ (headerName line).isSome ∨
    ∃ named ∈ order, ∃ between, SectionOf named between lines ∧ line ∈ between ∧
      (assignment line).isSome

theorem SectionOf.append {named : Bytes × StringMap} {between lines : List Bytes}
    (h : SectionOf named between lines) (top : List Bytes) :
    SectionOf named between (top ++ lines) := by
  obtain ⟨⟨before, header, after, rfl, hname, hafter⟩, quiet, entries⟩ := h
  exact ⟨⟨top ++ before, header, after, by rw [List.append_assoc], hname, hafter⟩, quiet, entries⟩

/-- Lines with nothing on them may stand in front. -/
theorem Laid.append {order : List (Bytes × StringMap)} {lines : List Bytes} (h : Laid order lines)
    {top : List Bytes} (htop : ∀ line ∈ top, stripped line = []) : Laid order (top ++ lines) where
  names := by
    have hnone : top.filterMap headerName = [] := by
      rw [List.filterMap_eq_nil_iff]
      exact fun line hline => headerName_of_stripped (htop line hline)
    rw [List.filterMap_append, hnone, List.nil_append, h.names]
  sections := by
    intro named hmem
    obtain ⟨between, hsection⟩ := h.sections named hmem
    exact ⟨between, hsection.append top⟩
  lines := by
    intro line hline
    rcases List.mem_append.mp hline with hline | hline
    · exact Or.inl (htop line hline)
    · rcases h.lines line hline with hempty | hname | ⟨named, hmem, between, hsection, hin, hsome⟩
      · exact Or.inl hempty
      · exact Or.inr (Or.inl hname)
      · exact Or.inr (Or.inr ⟨named, hmem, between, hsection.append top, hin, hsome⟩)

theorem bodyLines_spec {es : List (Bytes × Bytes)} {between : List Bytes} (h : BodyLines es between)
    (entries : ∀ e ∈ es, WritableEntry e.1 e.2) :
    between.filterMap assignment = es ∧ ∀ line ∈ between, headerName line = none ∧
      (stripped line = [] ∨ (assignment line).isSome) := by
  induction h with
  | nil => exact ⟨rfl, nofun⟩
  | other hline _ ih =>
    obtain ⟨hes, hlines⟩ := ih entries
    have hempty := stripped_lineEnd hline
    refine ⟨?_, List.forall_mem_cons.mpr ⟨⟨headerName_of_stripped hempty, Or.inl hempty⟩, hlines⟩⟩
    rw [List.filterMap_cons_none (assignment_of_stripped hempty), hes]
  | assign hline _ ih =>
    obtain ⟨hentry, entries⟩ := List.forall_mem_cons.mp entries
    obtain ⟨hes, hlines⟩ := ih entries
    obtain ⟨hname, hassign⟩ := assignLine_spec hline hentry
    refine ⟨?_, List.forall_mem_cons.mpr ⟨⟨hname, Or.inr (by rw [hassign]; rfl)⟩, hlines⟩⟩
    rw [List.filterMap_cons_some hassign, hes]

theorem written_laid {order : List (Bytes × StringMap)} {lines : List Bytes}
    (h : Written order lines) (writable : ∀ named ∈ order, WritableSection named.1 named.2) :
    Laid order lines ∧ ∀ line ∈ lines.head?, (headerName line).isSome := by
  induction h with
  | nil => exact ⟨⟨rfl, nofun, nofun⟩, nofun⟩
  | @cons name header values es between rest order hheader entries hlines _ ih =>
    obtain ⟨hsection, writable⟩ := List.forall_mem_cons.mp writable
    obtain ⟨laid, hfirst⟩ := ih writable
    have hname := headerName_headerLine hheader hsection.name_rbracket hsection.name_hash
    obtain ⟨hes, hbetween⟩ := bodyLines_spec hlines
      fun e he => hsection.entries e.1 e.2 ((entries.mem e.1 e.2).mpr he)
    have hquiet : ∀ line ∈ between, headerName line = none := fun line hline =>
      (hbetween line hline).1
    have hnone : between.filterMap headerName = [] := List.filterMap_eq_nil_iff.mpr hquiet
    have hown : SectionOf (name, values) between (header :: (between ++ rest)) :=
      ⟨⟨[], header, rest, rfl, hname, hfirst⟩, hquiet, by rw [hes]; exact entries⟩
    have hother : ∀ {named : Bytes × StringMap} {b : List Bytes}, SectionOf named b rest →
        SectionOf named b (header :: (between ++ rest)) :=
      fun hs => hs.append (header :: between)
    refine ⟨⟨?_, ?_, ?_⟩, ?_⟩
    · rw [List.filterMap_cons_some hname, List.filterMap_append, hnone, List.nil_append, laid.names,
        List.map_cons]
    · intro named hmem
      rcases List.mem_cons.mp hmem with rfl | hmem
      · exact ⟨between, hown⟩
      · obtain ⟨b, hs⟩ := laid.sections named hmem
        exact ⟨b, hother hs⟩
    · intro line hline
      rcases List.mem_cons.mp hline with rfl | hline
      · exact Or.inr (Or.inl (by rw [hname]; rfl))
      · rcases List.mem_append.mp hline with hline | hline
        · rcases (hbetween line hline).2 with hempty | hsome
          · exact Or.inl hempty
          · exact Or.inr (Or.inr ⟨_, List.mem_cons_self, between, hown, hline, hsome⟩)
        · rcases laid.lines line hline with hempty | hsome | ⟨named, hmem, b, hs, hin, hsome⟩
          · exact Or.inl hempty
          · exact Or.inr (Or.inl hsome)
          · exact Or.inr (Or.inr ⟨named, List.mem_cons_of_mem _ hmem, b, hother hs, hin, hsome⟩)
    · intro line hline
      obtain rfl := Option.some.inj hline
      rw [hname]
      rfl

theorem filterMap_inj {α β : Type} {f : α → Option β} {as : List α} (h : (as.filterMap f).Nodup)
    {x y : α} (hx : x ∈ as) (hy : y ∈ as) {b : β} (hfx : f x = some b) (hfy : f y = some b) :
    x = y := by
  induction as with
  | nil => cases hx
  | cons a as ih =>
    cases ha : f a with
    | none =>
      rw [List.filterMap_cons_none ha] at h
      have hne : ∀ z, f z = some b → z ∈ a :: as → z ∈ as := by
        intro z hz hmem
        rcases List.mem_cons.mp hmem with rfl | hmem
        · rw [ha] at hz
          cases hz
        · exact hmem
      exact ih h (hne x hfx hx) (hne y hfy hy)
    | some c =>
      rw [List.filterMap_cons_some ha, List.nodup_cons] at h
      have hrest : ∀ z, f z = some b → z ∈ as → c ≠ b := by
        rintro z hz hmem rfl
        exact h.1 (List.mem_filterMap.mpr ⟨z, hmem, hz⟩)
      rcases List.mem_cons.mp hx with rfl | hx'
      · rcases List.mem_cons.mp hy with rfl | hy'
        · rfl
        · exact absurd (Option.some.inj (ha.symm.trans hfx)) (hrest y hfy hy')
      · rcases List.mem_cons.mp hy with rfl | hy'
        · exact absurd (Option.some.inj (ha.symm.trans hfy)) (hrest x hfx hx')
        · exact ih h.2 hx' hy'

section

variable {models : StringMapModel} {order : List (Bytes × StringMap)} {lines : List Bytes}

theorem Laid.closed (h : Laid order lines) :
    ∀ line ∈ lines, (stripped line).head? = some lbracket → rbracket ∈ stripped line := by
  intro line hline hopen
  rcases h.lines line hline with hempty | hsome | ⟨-, -, between, -, -, hsome⟩
  · rw [hempty] at hopen
    cases hopen
  · obtain ⟨name, hname⟩ := Option.isSome_iff_exists.mp hsome
    by_contra hnot
    exact not_unclosed_of_headerName hname ⟨hopen, hnot⟩
  · rw [assignment, if_pos hopen] at hsome
    cases hsome

theorem sized_of_lexLine {line name : Bytes} (h : lexLine line = some (.header name)) :
    Sized line := by
  rw [lexLine] at h
  split at h
  · assumption
  · cases h

theorem lexAssignment_eq_some {line : Bytes} {p : Bytes × Bytes} (h : lexAssignment line = some p) :
    Sized line ∧ assignment line = some p := by
  rw [lexAssignment] at h
  split at h
  · exact ⟨by assumption, h⟩
  · cases h

/-- The headers whose sections come back have been seen. -/
theorem sized_header (laid : Laid order lines)
    (entries : Enumerates (fill (stored lines) : StringMapModel) order)
    {line : Bytes} (hline : line ∈ lines) (hsome : (headerName line).isSome) : Sized line := by
  obtain ⟨name, hname⟩ := Option.isSome_iff_exists.mp hsome
  have hmem : name ∈ order.map Prod.fst := by
    rw [← laid.names]
    exact List.mem_filterMap.mpr ⟨line, hline, hname⟩
  obtain ⟨named, hnamed, rfl⟩ := List.mem_map.mp hmem
  have hstored : named.1 ∈ (fill (stored lines) : StringMapModel) := by
    rw [Std.ExtTreeMap.mem_iff_isSome_getElem?, (entries.mem named.1 named.2).mpr hnamed]
    rfl
  rw [mem_fill, stored_map_fst, modelNames, List.mem_filter] at hstored
  obtain ⟨line', hline', hlex⟩ := List.mem_filterMap.mp (mem_names.mp hstored.1)
  have hnodup : (lines.filterMap headerName).Nodup := by
    rw [laid.names]
    exact entries.nodup
  rw [filterMap_inj hnodup hline hline' hname (headerName_of_lexLine hlex)]
  exact sized_of_lexLine hlex

/-- And so have the assignments whose values come back. -/
theorem sized_assignment (hnodup : (modelNames lines).Nodup) (laid : Laid order lines)
    (entries : Enumerates (fill (stored lines) : StringMapModel) order) {named : Bytes × StringMap}
    (hnamed : named ∈ order) (hne : named.1 ≠ []) {between : List Bytes}
    (hsection : SectionOf named between lines) {line : Bytes} (hline : line ∈ between)
    (hsome : (assignment line).isSome) : Sized line := by
  obtain ⟨⟨before, header, after, rfl, hname, hafter⟩, quiet, values⟩ := hsection
  obtain ⟨p, hp⟩ := Option.isSome_iff_exists.mp hsome
  have hheader : Sized header := sized_header laid entries (by simp) (by rw [hname]; rfl)
  have hsection' : (named.1, between.filterMap lexAssignment) ∈
      sections (items (before ++ header :: (between ++ after))) := by
    refine mem_sections hheader hname quiet ?_
    intro l hl
    have hmem : l ∈ after := List.mem_of_mem_head? hl
    exact ⟨sized_header laid entries (by simp [hmem]) (hafter l hl), hafter l hl⟩
  have hvalues : named.2 = fill (between.filterMap lexAssignment) :=
    Option.some.inj (((entries.mem _ _).mpr hnamed).symm.trans
      ((getElem?_stored hnodup).mpr ⟨hne, _, hsection', rfl⟩))
  have hassigned : named.2[p.1]? = some p.2 :=
    (values.mem _ _).mpr (List.mem_filterMap.mpr ⟨line, hline, hp⟩)
  have hkey : p.1 ∈ (between.filterMap lexAssignment).map Prod.fst := by
    have hstored : p.1 ∈ named.2 := by
      rw [Std.ExtTreeMap.mem_iff_isSome_getElem?, hassigned]
      rfl
    rwa [hvalues, mem_fill] at hstored
  obtain ⟨p', hp', hfst⟩ := List.mem_map.mp hkey
  obtain ⟨line', hline', hlex⟩ := List.mem_filterMap.mp hp'
  obtain ⟨hsize, hassign⟩ := lexAssignment_eq_some hlex
  have hnodup' : (between.filterMap fun l => (assignment l).map Prod.fst).Nodup := by
    rw [← List.map_filterMap]
    exact values.nodup
  rw [filterMap_inj hnodup' hline hline' (by rw [hp, Option.map_some]) (by
    rw [hassign, Option.map_some, hfst])]
  exact hsize

end

theorem parseModel_of_seen {models : StringMapModel} {order : List (Bytes × StringMap)}
    {lines : List Bytes} (laid : Laid order lines) (entries : Enumerates models order)
    (names : ∀ named ∈ order, named.1 ≠ []) (seen : ∀ line ∈ lines, Seen line) :
    parseModel lines ∅ = (true, models) := by
  obtain ⟨haccept, hmodels⟩ := parseModel_fresh lines
  have hnodup : (lines.filterMap headerName).Nodup := by
    rw [laid.names]
    exact entries.nodup
  have htrue := haccept.mpr ((accepted_of_seen seen).mpr ⟨laid.closed, hnodup.filter _⟩)
  have hstored := (accepted_fresh.mp (haccept.mp htrue)).2
  rw [hmodels htrue]
  congr 1
  apply Std.ExtTreeMap.ext_getElem?
  intro name
  by_cases hmem : name ∈ order.map Prod.fst
  · obtain ⟨named, hnamed, rfl⟩ := List.mem_map.mp hmem
    obtain ⟨between, ⟨before, header, after, rfl, hname, hafter⟩, quiet, values⟩ :=
      laid.sections named hnamed
    rw [getElem?_of_seen (fun line hline => seen line (List.mem_append_right _ hline)) hstored hname
      (names named hnamed) quiet hafter, values.fill_eq, (entries.mem _ _).mpr hnamed]
  · have hnone : models[name]? = none := by
      rw [← entries.fill_eq, getElem?_fill]
      exact lastValue_eq_none_iff.mpr hmem
    rw [hnone, getElem?_fill, lastValue_eq_none_iff, stored_map_fst, modelNames, names_of_seen seen,
      laid.names]
    exact fun h => hmem (List.mem_filter.mp h).1

theorem ConfigFile.laid {models : StringMapModel} (writable : Writable models) {text : Bytes}
    (file : ConfigFile models text) : ∃ order, Laid order (pieces newline text) ∧
      Enumerates models order ∧ ∀ named ∈ order, named.1 ≠ [] := by
  obtain ⟨top, order, lines, hpieces, htop, entries, hwritten⟩ := file.written
  have hsections : ∀ named ∈ order, WritableSection named.1 named.2 := fun named hnamed =>
    writable named.1 named.2 ((entries.mem _ _).mpr hnamed)
  refine ⟨order, ?_, entries, fun named hnamed => (hsections named hnamed).nonempty⟩
  rw [hpieces]
  exact (written_laid hwritten hsections).1.append fun line hline =>
    stripped_lineEnd (htop line hline)

/-- Of a skipped line the name or the value is missing in the models. -/
theorem seen_of_parseModel {models : StringMapModel} {order : List (Bytes × StringMap)}
    {lines : List Bytes} (laid : Laid order lines) (entries : Enumerates models order)
    (names : ∀ named ∈ order, named.1 ≠ []) (hparse : parseModel lines ∅ = (true, models)) :
    ∀ line ∈ lines, Seen line := by
  obtain ⟨haccept, hmodels⟩ := parseModel_fresh lines
  have htrue : (parseModel lines ∅).1 = true := congrArg Prod.fst hparse
  have hfill : (fill (stored lines) : StringMapModel) = models :=
    congrArg Prod.snd ((hmodels htrue).symm.trans hparse)
  rw [← hfill] at entries
  intro line hline hne
  rcases laid.lines line hline with hempty | hsome | ⟨named, hnamed, between, hs, hin, hsome⟩
  · exact absurd hempty hne
  · exact sized_header laid entries hline hsome
  · exact sized_assignment (accepted_fresh.mp (haccept.mp htrue)).2 laid entries hnamed
      (names named hnamed) hs hin hsome

/-- For all models that a config file can hold and every file that writes them down, in
any order and layout: the parser succeeds and gives these models exactly when it
skips no line with something on it, that is, when the size of each is positive as an
`int`. -/
theorem readBack_iff_sized {models : StringMapModel} (writable : Writable models) {text : Bytes}
    (file : ConfigFile models text) :
    parseModel (readConfFile (some text)) ∅ = (true, models) ↔
      ∀ line ∈ pieces newline text, stripped line ≠ [] → 0 < intSize (stripped line) := by
  obtain ⟨order, laid, entries, names⟩ := file.laid writable
  exact ⟨seen_of_parseModel laid entries names, parseModel_of_seen laid entries names⟩

/-- One model with one value, and a file that writes it down. -/
def oneModel (value : Bytes) : StringMapModel := fill [([97], fill [([107], value)])]

def oneText (value : Bytes) : Bytes := [lbracket, 97, rbracket, newline] ++ 107 :: equals :: value

theorem pieces_oneText {value : Bytes} (h : newline ∉ value) :
    pieces newline (oneText value) = [[lbracket, 97, rbracket], 107 :: equals :: value] := by
  have hterm : Terminated newline [lbracket, 97, rbracket, newline] := by decide
  have hlines : records newline [lbracket, 97, rbracket, newline] = [[lbracket, 97, rbracket]] := by
    decide
  have hnot : newline ∉ 107 :: equals :: value := by
    simp [h, show newline ≠ 107 by decide, show newline ≠ equals by decide]
  rw [oneText, pieces_append hterm, hlines, pieces, records_of_not_mem hnot,
    residue_of_not_mem hnot, if_neg (List.cons_ne_nil _ _)]
  rfl

theorem writable_oneModel {value : Bytes} (trimmed : trimString value = value)
    (hhash : hash ∉ value) (hnewline : newline ∉ value) : Writable (oneModel value) := by
  intro name values hvalues
  rw [oneModel, (enumerates_fill (by simp)).mem, List.mem_singleton] at hvalues
  obtain ⟨rfl, rfl⟩ := Prod.mk.inj hvalues
  refine ⟨by decide, by decide, by decide, by decide, ?_⟩
  intro key v hv
  rw [(enumerates_fill (by simp)).mem, List.mem_singleton] at hv
  obtain ⟨rfl, rfl⟩ := Prod.mk.inj hv
  exact ⟨by decide, by decide, by decide, by decide, by decide, trimmed, hhash, hnewline⟩

theorem configFile_oneText {value : Bytes} (hnewline : newline ∉ value) :
    ConfigFile (oneModel value) (oneText value) := by
  have hblanks : Blanks [] := nofun
  have hheader : HeaderLine [97] [lbracket, 97, rbracket] := .mk hblanks (.blanks hblanks)
  have hassign : AssignLine [107] value (107 :: equals :: value) := by
    have hline := @AssignLine.mk [107] value [] [] [] [] hblanks hblanks hblanks (.blanks hblanks)
    simpa using hline
  refine ⟨[], [([97], fill [([107], value)])], _, pieces_oneText hnewline, nofun,
    enumerates_fill (by simp), ?_⟩
  exact .cons hheader (enumerates_fill (by simp)) (.assign hassign .nil) .nil

theorem readBack_shortValue :
    parseModel (readConfFile (some (oneText [118]))) ∅ = (true, oneModel [118]) := by
  refine (readBack_iff_sized (writable_oneModel (by decide) (by decide) (by decide))
    (configFile_oneText (by decide))).mpr ?_
  rw [pieces_oneText (by decide)]
  decide

theorem intSize_nonpos {line : Bytes} (lo : 2 ^ 31 ≤ line.length) (hi : line.length ≤ 2 ^ 32) :
    intSize line ≤ 0 := by
  have hbmod : Int.bmod line.length (2 ^ 32) ≤ 0 := by
    rw [Int.bmod_def]
    norm_num
    omega
  exact hbmod

/-- A line from 2^31 to 2^32 bytes is skipped. -/
theorem not_seen_longLine {n : Nat} (lo : 2 ^ 31 ≤ n + 2) (hi : n + 2 ≤ 2 ^ 32) :
    ¬ Seen (107 :: equals :: List.replicate n 118) := by
  obtain ⟨n, rfl⟩ : ∃ k, n = k + 1 := ⟨n - 1, by omega⟩
  have hline : 107 :: equals :: List.replicate (n + 1) 118 =
      107 :: equals :: List.replicate n 118 ++ 118 :: ([] : Bytes) := by
    rw [List.replicate_succ', List.cons_append, List.cons_append]
  have hhash : hash ∉ 107 :: equals :: List.replicate (n + 1) (118 : UInt8) := by
    simp [List.mem_replicate, hash, equals]
  have htrim : trimString (107 :: equals :: List.replicate (n + 1) 118) =
      107 :: equals :: List.replicate (n + 1) 118 := by
    rw [hline, trimString, trim_append_cons _ (by decide), List.cons_append,
      List.dropWhile_cons_of_neg (by decide)]
    rfl
  have hstripped : stripped (107 :: equals :: List.replicate (n + 1) 118) =
      107 :: equals :: List.replicate (n + 1) 118 := by
    rw [stripped, htrim, upTo_of_not_mem hhash]
  have hlen : (107 :: equals :: List.replicate (n + 1) 118).length = n + 1 + 2 := by simp
  intro hseen
  have hsize := hseen (by rw [hstripped]; exact List.cons_ne_nil _ _)
  rw [Sized, hstripped] at hsize
  rw [← hlen] at lo hi
  have hle := intSize_nonpos lo hi
  omega

theorem trimString_replicate (n : Nat) :
    trimString (List.replicate n 118) = List.replicate n 118 := by
  cases n with
  | zero => rfl
  | succ n =>
    rw [List.replicate_succ', trimString, trim_append_cons _ (by decide)]
    cases n with
    | zero => rfl
    | succ n =>
      rw [List.replicate_succ, List.dropWhile_cons_of_neg (by decide)]
      rfl

theorem not_readBack_replicate {n : Nat} (lo : 2 ^ 31 ≤ n + 2) (hi : n + 2 ≤ 2 ^ 32) :
    Writable (oneModel (List.replicate n 118)) ∧
      ConfigFile (oneModel (List.replicate n 118)) (oneText (List.replicate n 118)) ∧
      parseModel (readConfFile (some (oneText (List.replicate n 118)))) ∅ ≠
        (true, oneModel (List.replicate n 118)) := by
  have hnot : ∀ d, d ≠ 118 → d ∉ List.replicate n (118 : UInt8) := fun d hd hmem =>
    hd (List.mem_replicate.mp hmem).2
  have hnewline := hnot newline (by decide)
  have writable := writable_oneModel (trimString_replicate n) (hnot hash (by decide)) hnewline
  have file := configFile_oneText hnewline
  refine ⟨writable, file, ?_⟩
  intro hparse
  obtain ⟨order, laid, entries, names⟩ := file.laid writable
  have seen := seen_of_parseModel laid entries names hparse
  rw [pieces_oneText hnewline] at seen
  exact not_seen_longLine lo hi (seen _ (by simp))

/-- A value of 2^31 bytes is lost. -/
theorem not_readBack_longValue :
    Writable (oneModel (List.replicate (2 ^ 31) 118)) ∧
      ConfigFile (oneModel (List.replicate (2 ^ 31) 118)) (oneText (List.replicate (2 ^ 31) 118)) ∧
      parseModel (readConfFile (some (oneText (List.replicate (2 ^ 31) 118)))) ∅ ≠
        (true, oneModel (List.replicate (2 ^ 31) 118)) :=
  not_readBack_replicate (by norm_num) (by norm_num)

end Conf
