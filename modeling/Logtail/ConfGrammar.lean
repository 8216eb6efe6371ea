import Logtail.Conf

/-!
# What the config parser accepts and stores

A file is accepted when every opened bracket is closed and no name comes twice.
Each header with a name then stores the last values of the lines up to the next
header. After an error the section in progress is stored if the error is a second
header of one name, and lost if it is a bracket that is not closed.
-/

namespace Conf

open Framing FileStream Checkpoint Sections

/-- The parser does not skip the line unless there is nothing on it. -/
def Seen (line : Bytes) : Prop := stripped line ≠ [] → Sized line

theorem seen_of_short {line : Bytes} (short : line.length < 2 ^ 31) : Seen line :=
  (sized_iff short).mpr

section

variable {line name : Bytes} {lines : List Bytes}

theorem headerName_of_stripped (h : stripped line = []) : headerName line = none := by
  simp [headerName, h]

theorem assignment_of_stripped (h : stripped line = []) : assignment line = none := by
  simp [assignment, h, cut]

theorem lexLine_of_seen (seen : Seen line) :
    lexLine line = match headerName line with
      | some name => some (.header name)
      | none => (assignment line).map fun p => .entry p.1 p.2 := by
  by_cases hempty : stripped line = []
  · have hname := headerName_of_stripped hempty
    have hassign := assignment_of_stripped hempty
    simp [lexLine, hname, hassign]
  · cases hname : headerName line <;> simp [lexLine, seen hempty, hname]

theorem lexAssignment_of_seen (seen : Seen line) : lexAssignment line = assignment line := by
  by_cases hempty : stripped line = []
  · rw [lexAssignment, assignment_of_stripped hempty, ite_self]
  · rw [lexAssignment, if_pos (seen hempty)]

theorem sized_of_unclosed (seen : Seen line) (h : Unclosed line) : Sized line := by
  apply seen
  intro hempty
  rw [Unclosed, hempty] at h
  exact absurd h.1 nofun

theorem sized_of_headerName (seen : Seen line) (h : headerName line = some name) : Sized line := by
  apply seen
  intro hempty
  rw [headerName_of_stripped hempty] at h
  cases h

theorem names_of_seen (seen : ∀ line ∈ lines, Seen line) :
    names (items lines) = lines.filterMap headerName := by
  induction lines with
  | nil => rfl
  | cons line lines ih =>
    obtain ⟨hline, seen⟩ := List.forall_mem_cons.mp seen
    have hlex := lexLine_of_seen hline
    cases hname : headerName line with
    | some name =>
      rw [hname] at hlex
      rw [items_some hlex, names, ih seen, List.filterMap_cons_some hname]
    | none =>
      rw [hname] at hlex
      rw [List.filterMap_cons_none hname, ← ih seen]
      cases hassign : assignment line with
      | none =>
        rw [hassign] at hlex
        rw [items_none hlex]
      | some p =>
        rw [hassign] at hlex
        rw [items_some hlex, names]

/-- Of lines that are all seen. -/
theorem accepted_of_seen (seen : ∀ line ∈ lines, Seen line) :
    Accepted fresh lines ↔
      (∀ line ∈ lines, (stripped line).head? = some lbracket → rbracket ∈ stripped line) ∧
        ((lines.filterMap headerName).filter (· ≠ [])).Nodup := by
  rw [accepted_fresh, modelNames, names_of_seen seen, and_congr_left_iff]
  intro _
  refine forall₂_congr fun line hline => ?_
  rw [Unclosed, not_and, not_and, not_not]
  refine ⟨fun h hopen => ?_, fun h _ hopen => h hopen⟩
  by_contra hnot
  exact hnot (h (sized_of_unclosed (seen line hline) ⟨hopen, hnot⟩) hopen)

/-- A section of the text is stored. -/
theorem getElem?_of_seen {before between after : List Bytes} {header : Bytes}
    (seen : ∀ line ∈ header :: (between ++ after), Seen line)
    (hnodup : (modelNames (before ++ header :: (between ++ after))).Nodup)
    (hname : headerName header = some name) (hne : name ≠ [])
    (hbetween : ∀ line ∈ between, headerName line = none)
    (hafter : ∀ line ∈ after.head?, (headerName line).isSome) :
    (fill (stored (before ++ header :: (between ++ after))) : StringMapModel)[name]? =
      some (fill (between.filterMap assignment)) := by
  have hsame : between.filterMap assignment = between.filterMap lexAssignment := by
    apply List.filterMap_congr
    intro line hline
    exact (lexAssignment_of_seen (seen line (by simp [hline]))).symm
  rw [getElem?_stored hnodup, hsame]
  refine ⟨hne, _, ?_, rfl⟩
  refine mem_sections (sized_of_headerName (seen header (by simp)) hname) hname hbetween ?_
  intro line hline
  obtain ⟨n, hn⟩ := Option.isSome_iff_exists.mp (hafter line hline)
  have hmem : line ∈ after := List.mem_of_mem_head? hline
  exact ⟨sized_of_headerName (seen line (by simp [hmem])) hn, hafter line hline⟩

end

/-- For every list of short lines and a new `conf`: the parser accepts exactly the files
whose opened brackets are closed and whose names differ, and the models are then the
sections, each with the last values of its own lines. -/
theorem parseModel_grammar (lines : List Bytes) (short : ∀ line ∈ lines, line.length < 2 ^ 31) :
    ((parseModel lines ∅).1 = true ↔
      (∀ line ∈ lines, (stripped line).head? = some lbracket → rbracket ∈ stripped line) ∧
        ((lines.filterMap headerName).filter (· ≠ [])).Nodup) ∧
    ((parseModel lines ∅).1 = true →
      (∀ name, name ∈ (parseModel lines ∅).2 ↔
        name ≠ [] ∧ ∃ line ∈ lines, headerName line = some name) ∧
      ∀ before header between after name,
        lines = before ++ header :: (between ++ after) →
        headerName header = some name → name ≠ [] →
        (∀ line ∈ between, headerName line = none) →
        (∀ line ∈ after.head?, (headerName line).isSome) →
        ∃ values, (parseModel lines ∅).2[name]? = some values ∧
          ∀ key, values[key]? = lastValue (between.filterMap assignment) key) := by
  obtain ⟨haccept, hmodels⟩ := parseModel_fresh lines
  have seen : ∀ line ∈ lines, Seen line := fun line hline => seen_of_short (short line hline)
  refine ⟨haccept.trans (accepted_of_seen seen), ?_⟩
  intro htrue
  have hnodup := (accepted_fresh.mp (haccept.mp htrue)).2
  rw [hmodels htrue]
  constructor
  · intro name
    rw [mem_fill, stored_map_fst, modelNames, names_of_seen seen, List.mem_filter,
      List.mem_filterMap]
    simp [and_comm]
  · rintro before header between after name rfl hname hne hbetween hafter
    refine ⟨fill (between.filterMap assignment), ?_, fun key => getElem?_fill _ key⟩
    exact getElem?_of_seen (fun line hline => seen line (List.mem_append_right _ hline)) hnodup
      hname
      hne hbetween hafter

/-- Two sections, a repeated key, and lines that belong to no model. -/
theorem parseModel_grammar_twoSections :
    (parseModel [[107, 61, 48], [91, 97, 93], [107, 61, 49], [91, 93], [107, 61, 50], [91, 98, 93],
      [107, 32, 61, 32, 51], [107, 61, 52]] ∅).1 = true := by
  refine (parseModel_grammar _ ?_).1.mpr ?_
  · decide
  · decide

theorem foldlM_error {σ ε α : Type} {f : σ → α → Except ε σ} {as : List α} {s : σ} {e : ε}
    (h : as.foldlM f s = .error e) :
    ∃ before bad after s', as = before ++ bad :: after ∧ before.foldlM f s = .ok s' ∧
      f s' bad = .error e := by
  induction as generalizing s with
  | nil => cases h
  | cons a as ih =>
    rw [List.foldlM_cons] at h
    cases ha : f s a with
    | error e' =>
      rw [ha] at h
      exact ⟨[], a, as, s, rfl, rfl, ha.trans h⟩
    | ok s₁ =>
      rw [ha] at h
      obtain ⟨before, bad, after, s', rfl, hbefore, hbad⟩ := ih h
      refine ⟨a :: before, bad, after, s', rfl, ?_, hbad⟩
      rw [List.foldlM_cons, ha]
      exact hbefore

theorem foldlM_stops {σ ε α : Type} {f : σ → α → Except ε σ} {before : List α} {bad : α} {s s' : σ}
    {e : ε} (h : before.foldlM f s = .ok s') (hbad : f s' bad = .error e) (after : List α) :
    (before ++ bad :: after).foldlM f s = .error e := by
  rw [List.foldlM_append, h, ← hbad]
  show (bad :: after).foldlM f s' = _
  rw [List.foldlM_cons, hbad]
  rfl

section

variable {c c' : Locals} {line : Bytes} {lines : List Bytes} {models : StringMapModel}

theorem headerName_of_lexLine {name : Bytes} (h : lexLine line = some (.header name)) :
    headerName line = some name := by
  rw [lexLine] at h
  split at h
  · split at h
    · rename_i n hn
      obtain rfl := Item.header.inj (Option.some.inj h)
      exact hn
    · obtain ⟨p, -, hp⟩ := Option.map_eq_some_iff.mp h
      cases hp
  · cases h

/-- The two error exits. -/
theorem parseLine_error (h : parseLine c line = .error models) :
    (rbracket ∉ stripped line ∧ models = c.models) ∨
      (rbracket ∈ stripped line ∧ models = store c.models (c.modelName, c.values)) := by
  rcases parseLine_cases c line with ⟨-, -, hline⟩ | ⟨-, -, hopen, hline⟩ |
    ⟨arg, val, -, -, hline⟩ | ⟨name, hlex, hclosed, hline⟩
  · rw [hline] at h
    cases h
  · rw [hline] at h
    exact Or.inl ⟨hopen.2, (Except.error.inj h).symm⟩
  · rw [hline] at h
    cases h
  · have hbracket : rbracket ∈ stripped line := by
      by_contra hnot
      exact hclosed ⟨(headerName_eq_some_iff.mp (headerName_of_lexLine hlex)).1, hnot⟩
    rw [hline] at h
    split at h
    · exact Or.inr ⟨hbracket, (Except.error.inj h).symm⟩
    · cases h

/-- The section in progress is not stored yet. -/
def Unstored (c : Locals) : Prop := c.modelName = [] ∨ c.modelName ∉ c.models

theorem unstored_parseLine (h : Unstored c) (hline : parseLine c line = .ok c') : Unstored c' := by
  rcases parseLine_cases c line with ⟨-, -, hline'⟩ | ⟨-, -, -, hline'⟩ |
    ⟨arg, val, -, -, hline'⟩ | ⟨name, -, -, hline'⟩
  · rw [hline'] at hline
    obtain rfl := Except.ok.inj hline
    exact h
  · rw [hline'] at hline
    cases hline
  · rw [hline'] at hline
    obtain rfl := Except.ok.inj hline
    exact h
  · rw [hline'] at hline
    split at hline
    · cases hline
    · rename_i hnot
      obtain rfl := Except.ok.inj hline
      exact Or.inr hnot

theorem unstored_foldlM (h : Unstored c) (hlines : lines.foldlM parseLine c = .ok c') :
    Unstored c' := by
  induction lines generalizing c with
  | nil =>
    obtain rfl := Except.ok.inj hlines
    exact h
  | cons line lines ih =>
    rw [List.foldlM_cons] at hlines
    cases hline : parseLine c line with
    | error models =>
      rw [hline] at hlines
      cases hlines
    | ok c₁ =>
      rw [hline] at hlines
      exact ih (unstored_parseLine h hline) hlines

/-- Storing it changes the models, if it has a name. -/
theorem store_eq_iff (h : Unstored c) :
    c.models = store c.models (c.modelName, c.values) ↔ c.modelName = [] := by
  constructor
  · intro heq
    by_contra hne
    rcases h with hnil | hnot
    · exact hne hnil
    · rw [heq] at hnot
      exact hnot (mem_store.mpr (Or.inr ⟨hne, rfl⟩))
  · intro hnil
    simp [store, hnil]

end

theorem parseModel_of_ok {lines : List Bytes} {c' : Locals}
    (h : lines.foldlM parseLine fresh = .ok c') :
    parseModel lines ∅ = (true, store c'.models (c'.modelName, c'.values)) := by
  rw [parseModel, show (⟨∅, [], ∅⟩ : Locals) = fresh from rfl, h]

theorem parseModel_of_error {lines : List Bytes} {models : StringMapModel}
    (h : lines.foldlM parseLine fresh = .error models) : parseModel lines ∅ = (false, models) := by
  rw [parseModel, show (⟨∅, [], ∅⟩ : Locals) = fresh from rfl, h]

/-- The name of the section that is in progress behind the lines, if there is one. -/
def inProgress (lines : List Bytes) : Bytes := (names (items lines)).getLast?.getD []

/-- For every list of lines that the parser rejects: it stops at the first line that it
cannot take, and the models are those of the lines before it exactly when that line
is a second header of one name, or no section with a name is in progress. -/
theorem parseModel_error_iff (lines : List Bytes) (hfail : (parseModel lines ∅).1 = false) :
    ∃ before bad after, lines = before ++ bad :: after ∧
      (parseModel before ∅).1 = true ∧ (parseModel (before ++ [bad]) ∅).1 = false ∧
      ((parseModel lines ∅).2 = (parseModel before ∅).2 ↔
        rbracket ∈ stripped bad ∨ inProgress before = []) := by
  cases hrun : lines.foldlM parseLine fresh with
  | ok c' =>
    rw [parseModel_of_ok hrun] at hfail
    cases hfail
  | error models =>
    obtain ⟨before, bad, after, c', rfl, hbefore, hbad⟩ := foldlM_error hrun
    have hok := parseModel_of_ok hbefore
    have hone := parseModel_of_error (foldlM_stops hbefore hbad [])
    have hunstored : Unstored c' := unstored_foldlM (Or.inl rfl) hbefore
    have hname : c'.modelName = inProgress before := by
      obtain ⟨-, hcollector⟩ :=
        (foldlM_parseLine before (c := fresh) (by simp [fresh])).2 c' hbefore
      have hlast := Collector.name_collect assign ∅ store (items before) fresh.collector
      rw [← hcollector] at hlast
      exact hlast
    refine ⟨before, bad, after, rfl, by rw [hok], by rw [hone], ?_⟩
    rw [parseModel_of_error hrun, hok, ← hname]
    rcases parseLine_error hbad with ⟨hbracket, rfl⟩ | ⟨hbracket, rfl⟩
    · rw [store_eq_iff hunstored]
      simp [hbracket]
    · simp [hbracket]

/-- A second header stops the parser. -/
theorem parseModel_error_secondHeader :
    ∃ before bad after, [[91, 97, 93], [107, 61, 49], [91, 97, 93]] = before ++ bad :: after ∧
      ((parseModel [[91, 97, 93], [107, 61, 49], [91, 97, 93]] ∅).2 = (parseModel before ∅).2 ↔
        rbracket ∈ stripped bad ∨ inProgress before = []) := by
  obtain ⟨before, bad, after, hlines, -, -, hiff⟩ :=
    parseModel_error_iff [[91, 97, 93], [107, 61, 49], [91, 97, 93]] (by decide)
  exact ⟨before, bad, after, hlines, hiff⟩

/-- The section `a` is stored when its second header comes, and lost when a bracket is
not closed. -/
theorem not_parseModel_error_unclosed :
    [97] ∈ (parseModel [[91, 97, 93], [107, 61, 49]] ∅).2 ∧
      ((parseModel [[91, 97, 93], [107, 61, 49], [91, 97, 93]] ∅).1 = false ∧
        [97] ∈ (parseModel [[91, 97, 93], [107, 61, 49], [91, 97, 93]] ∅).2) ∧
      (parseModel [[91, 97, 93], [107, 61, 49], [91, 98]] ∅).1 = false ∧
      [97] ∉ (parseModel [[91, 97, 93], [107, 61, 49], [91, 98]] ∅).2 := by
  decide

end Conf
