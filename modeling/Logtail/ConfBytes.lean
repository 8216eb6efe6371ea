import Logtail.ConfGrammar

/-!
# The bytes of the values

Names, keys and values are pieces of the lines: a byte that no line has in front of
its comment is in none of them. The lines are what `getline` finds, so no newline
gets through.
-/

namespace Conf

open Framing FileStream Checkpoint Sections

variable {b : UInt8}

theorem trimString_subset (str : Bytes) : trimString str ⊆ str :=
  fun _ hb => (List.dropWhile_suffix _).subset ((List.rdropWhile_prefix _ _).subset hb)

theorem upTo_subset (d : UInt8) (str : Bytes) : upTo d str ⊆ str := by
  rcases cut_cases d str with hnot | ⟨w, rest, rfl, hw⟩
  · rw [upTo_of_not_mem hnot]
    exact List.Subset.refl _
  · rw [upTo_append hw]
    exact List.subset_append_left _ _

theorem not_mem_upTo (d : UInt8) (str : Bytes) : d ∉ upTo d str := by
  rcases cut_cases d str with hnot | ⟨w, rest, rfl, hw⟩
  · rwa [upTo_of_not_mem hnot]
  · rwa [upTo_append hw]

/-- No key and no value has the byte. -/
def Lacking (b : UInt8) (values : StringMap) : Prop :=
  ∀ (key val : Bytes), values[key]? = some val → b ∉ key ∧ b ∉ val

/-- Nor has the name of a model. -/
def ModelsLacking (b : UInt8) (models : StringMapModel) : Prop :=
  ∀ (name : Bytes) (values : StringMap), models[name]? = some values → b ∉ name ∧ Lacking b values

structure LocalsLacking (b : UInt8) (c : Locals) : Prop where
  models : ModelsLacking b c.models
  modelName : b ∉ c.modelName
  values : Lacking b c.values

theorem lacking_empty (b : UInt8) : Lacking b ∅ := by
  intro key val h
  simp at h

theorem lacking_insert {values : StringMap} (h : Lacking b values) {arg val : Bytes}
    (harg : b ∉ arg) (hval : b ∉ val) : Lacking b (values.insert arg val) := by
  intro key v hv
  rw [Std.ExtTreeMap.getElem?_insert] at hv
  split at hv
  · rename_i hkey
    obtain rfl := Option.some.inj hv
    rw [← Std.LawfulEqCmp.compare_eq_iff_eq.mp hkey]
    exact ⟨harg, hval⟩
  · exact h key v hv

theorem modelsLacking_store {models : StringMapModel} (h : ModelsLacking b models) {name : Bytes}
    {values : StringMap} (hname : b ∉ name) (hvalues : Lacking b values) :
    ModelsLacking b (store models (name, values)) := by
  unfold store
  split
  · intro x v hv
    rw [Std.ExtTreeMap.getElem?_insert] at hv
    split at hv
    · rename_i hx
      obtain rfl := Option.some.inj hv
      rw [← Std.LawfulEqCmp.compare_eq_iff_eq.mp hx]
      exact ⟨hname, hvalues⟩
    · exact h x v hv
  · exact h

theorem cut_subset {d : UInt8} {str w rest : Bytes} (h : cut d str = some (w, rest)) :
    w ⊆ str ∧ rest ⊆ str := by
  obtain ⟨rfl, -⟩ := (cut_eq_some_iff d str w rest).mp h
  exact ⟨List.subset_append_left _ _,
    fun _ hb => List.mem_append_right _ (List.mem_cons_of_mem _ hb)⟩

theorem header_subset {line name : Bytes} (h : lexLine line = some (.header name)) :
    name ⊆ stripped line := by
  obtain ⟨-, w, rest, hcut, rfl⟩ := headerName_eq_some_iff.mp (headerName_of_lexLine h)
  exact fun _ hb => (cut_subset hcut).1 ((List.drop_suffix _ _).subset hb)

theorem assignment_subset {line arg val : Bytes} (h : assignment line = some (arg, val)) :
    arg ⊆ stripped line ∧ val ⊆ stripped line := by
  unfold assignment at h
  split at h
  · cases h
  · obtain ⟨⟨before, behind⟩, hcut, hp⟩ := Option.map_eq_some_iff.mp h
    obtain ⟨rfl, rfl⟩ := Prod.mk.inj hp
    exact ⟨List.Subset.trans (trimString_subset _) (cut_subset hcut).1,
      List.Subset.trans (trimString_subset _) (cut_subset hcut).2⟩

theorem entry_subset {line arg val : Bytes} (h : lexLine line = some (.entry arg val)) :
    arg ⊆ stripped line ∧ val ⊆ stripped line := by
  unfold lexLine at h
  split at h
  · cases hname : headerName line with
    | some name => simp [hname] at h
    | none =>
      simp only [hname] at h
      obtain ⟨p, hp, heq⟩ := Option.map_eq_some_iff.mp h
      obtain ⟨rfl, rfl⟩ := Item.entry.inj heq
      exact assignment_subset hp
  · cases h

theorem localsLacking_parseLine {c c' : Locals} {line : Bytes} (h : LocalsLacking b c)
    (hline : b ∉ stripped line) (hparse : parseLine c line = .ok c') : LocalsLacking b c' := by
  rcases parseLine_cases c line with ⟨-, -, heq⟩ | ⟨-, -, -, heq⟩ | ⟨arg, val, hlex, -, heq⟩ |
    ⟨name, hlex, -, heq⟩
  · obtain rfl := Except.ok.inj (heq.symm.trans hparse)
    exact h
  · cases heq.symm.trans hparse
  · obtain ⟨harg, hval⟩ := entry_subset hlex
    obtain rfl := Except.ok.inj (heq.symm.trans hparse)
    exact ⟨h.models, h.modelName, lacking_insert h.values (fun hb => hline (harg hb))
      fun hb => hline (hval hb)⟩
  · rw [heq] at hparse
    split at hparse
    · cases hparse
    · obtain rfl := Except.ok.inj hparse
      exact ⟨modelsLacking_store h.models h.modelName h.values,
        fun hb => hline (header_subset hlex hb), lacking_empty b⟩

/-- The models that an error leaves. -/
theorem modelsLacking_parseLine {c : Locals} {line : Bytes} {models : StringMapModel}
    (h : LocalsLacking b c) (hparse : parseLine c line = .error models) :
    ModelsLacking b models := by
  rcases parseLine_error hparse with ⟨-, rfl⟩ | ⟨-, rfl⟩
  · exact h.models
  · exact modelsLacking_store h.models h.modelName h.values

theorem modelsLacking_foldlM {lines : List Bytes} {c : Locals} (h : LocalsLacking b c)
    (hlines : ∀ line ∈ lines, b ∉ stripped line) :
    (∀ c', lines.foldlM parseLine c = .ok c' → LocalsLacking b c') ∧
      ∀ models, lines.foldlM parseLine c = .error models → ModelsLacking b models := by
  induction lines generalizing c with
  | nil =>
    constructor
    · rintro c' hc
      obtain rfl := Except.ok.inj hc
      exact h
    · rintro models hc
      cases hc
  | cons line lines ih =>
    have hrest : ∀ l ∈ lines, b ∉ stripped l := fun l hl => hlines l (List.mem_cons_of_mem _ hl)
    rw [List.foldlM_cons]
    cases hparse : parseLine c line with
    | error models' =>
      constructor
      · rintro c' hc
        cases hc
      · rintro models hc
        obtain rfl := Except.error.inj hc
        exact modelsLacking_parseLine h hparse
    | ok c' => exact ih (localsLacking_parseLine h (hlines line List.mem_cons_self) hparse) hrest

/-- What no line has in front of its comment, no name, key or value has. -/
theorem modelsLacking_parseModel {lines : List Bytes}
    (hlines : ∀ line ∈ lines, b ∉ stripped line) :
    ModelsLacking b (parseModel lines ∅).2 := by
  have hempty : ModelsLacking b ∅ := by
    intro name values h
    simp at h
  obtain ⟨hok, herror⟩ := modelsLacking_foldlM
    (c := fresh) ⟨hempty, List.not_mem_nil, lacking_empty b⟩ hlines
  cases hparse : lines.foldlM parseLine fresh with
  | error models =>
    rw [parseModel_of_error hparse]
    exact herror models hparse
  | ok c =>
    rw [parseModel_of_ok hparse]
    have hc := hok c hparse
    exact modelsLacking_store hc.models hc.modelName hc.values

theorem newline_lacking (file : Option Bytes) : ModelsLacking newline (parseConfig file) := by
  apply modelsLacking_parseModel
  intro line hline hb
  have hnot : newline ∉ line := by
    cases file with
    | none => exact absurd hline List.not_mem_nil
    | some text => exact not_mem_of_mem_pieces hline
  exact hnot (trimString_subset _ (upTo_subset _ _ hb))

end Conf
