import Mathlib.Data.List.Nodup
import RestScenario.Proofs.Outline

/-!
# Paths in the lead

A path parameter may share its name with query and header parameters, and then it gets the value of
whichever comes first. Where path parameters lead under their names (`Action.PathsLead`), sharing
leaves path values alone, and an action that followed the path of another keeps what it took over.

Which parameter leads is a matter of names and places, not of values (`Action.labels`), and so is
which variables of a path are declared (`Action.DeclaresPath`).
-/

namespace RestScenario

/-! ## Labels -/

namespace Param

variable {p : Param}

/-- What decides which parameters share a value, and which of them leads: the name, and whether the
parameter is carried in the path or is a body. -/
def label (p : Param) : String × Bool × Bool := (p.name, p.isPath, p.isBody)

theorem label_of_blank {q : Param} (h : q.blank = p.blank) : q.label = p.label := by
  have label_blank : ∀ p : Param, p.blank.label = p.label := by
    rintro ⟨name, place, type, required, default, value⟩
    cases place <;> rfl
  rw [← label_blank, h, label_blank]

@[simp]
theorem label_with_value {v : Value} : label { p with value := v } = p.label := rfl

theorem label_mapFields {change : List Field → List Field} :
    (p.mapFields change).label = p.label := label_of_blank blank_mapFields

end Param

namespace Action

variable {a b other : Action} {params : List Param} {first : Param} {name : String} {v w : Value}

/-- The labels of the parameters. -/
def labels (a : Action) : List (String × Bool × Bool) := a.params.map Param.label

/-- Values play no part in labels. -/
theorem labels_of_blank (h : b.blank = a.blank) : b.labels = a.labels := by
  have labels_blank : ∀ a : Action, a.blank.labels = a.labels := by
    intro a
    unfold labels blank
    dsimp only
    rw [List.map_map]
    exact List.map_congr_left fun p _ => Param.label_of_blank Param.blank_blank
  rw [← labels_blank, h, labels_blank]

theorem label_led {lead : String → Option Param} {p : Param} : (led lead p).label = p.label :=
  Param.label_of_blank blank_led

theorem labels_shareValues : a.shareValues.labels = a.labels := labels_of_blank blank_shareValues

theorem labels_followPath : (a.followPath other).labels = a.labels := labels_of_blank blank_followPath

theorem label_followParam {p : Param} : (followParam other p).label = p.label :=
  Param.label_of_blank blank_followParam

/-! ## What leads -/

/-- Path parameters lead under their names. -/
def PathsLead (a : Action) : Prop :=
  ∀ p ∈ a.params, p.isPath = true → ∀ first ∈ firstPlain? a.params p.name, first.isPath = true

instance : DecidablePred PathsLead := fun a =>
  inferInstanceAs (Decidable (∀ p ∈ a.params, p.isPath = true →
    ∀ first ∈ firstPlain? a.params p.name, first.isPath = true))

theorem PathsLead.of_labels (ha : a.PathsLead) (h : b.labels = a.labels) : b.PathsLead := by
  have hlead : ∀ c : Action, ∀ name, (firstPlain? c.params name).map Param.label =
      c.labels.find? fun l => !l.2.2 && l.1 = name := by
    intro c name
    unfold labels
    rw [List.find?_map]
    rfl
  intro p hp hpath first hfirst
  have hp' : p.label ∈ a.labels := h ▸ List.mem_map_of_mem hp
  obtain ⟨q, hq, hqp⟩ := List.mem_map.1 hp'
  obtain ⟨hname, hqpath, -⟩ : q.name = p.name ∧ q.isPath = p.isPath ∧ q.isBody = p.isBody := by
    simpa [Param.label] using hqp
  have hfirst' : (firstPlain? a.params q.name).map Param.label = some first.label := by
    rw [hlead, hname, ← h, ← hlead, Option.mem_def.1 hfirst]
    rfl
  obtain ⟨first', hmem, hlabel⟩ := Option.map_eq_some_iff.1 hfirst'
  obtain ⟨-, hsame, -⟩ : first'.name = first.name ∧ first'.isPath = first.isPath ∧
      first'.isBody = first.isBody := by simpa [Param.label] using hlabel
  rw [← hsame]
  exact ha q hq (hqpath.trans hpath) first' hmem

/-! ## Path values -/

theorem exists_of_pathValue? (h : pathValue? params name = some v) :
    ∃ p ∈ params, p.isPath = true ∧ p.name = name ∧ p.value = v := by
  obtain ⟨p, hp, rfl⟩ := Option.map_eq_some_iff.1 h
  obtain ⟨hpath, hname⟩ : p.isPath = true ∧ p.name = name := by simpa using List.find?_some hp
  exact ⟨p, List.mem_of_find?_eq_some hp, hpath, hname, rfl⟩

theorem pathValue?_of_lead (hfirst : firstPlain? params name = some first)
    (hpath : first.isPath = true) : pathValue? params name = some first.value := by
  obtain ⟨-, hname⟩ := plain_of_firstPlain? hfirst
  obtain ⟨-, front, back, rfl, hfront⟩ := List.find?_eq_some_iff_append.1 hfirst
  refine Option.map_eq_some_iff.2 ⟨first, List.find?_eq_some_iff_append.2 ⟨?_, front, back, rfl,
    fun p hp => ?_⟩, rfl⟩
  · simp [hpath, hname]
  · have hother := hfront p hp
    cases hpath : p.isPath with
    | false => rfl
    | true => simpa [Param.isBody_of_isPath hpath] using hother

theorem mapFields_led {p first : Param} {lead : String → Option Param}
    {change : List Field → List Field} (hpath : p.isPath = true) (hfirst : lead p.name = some first) :
    (led lead p).mapFields change = { p with value := first.value } := by
  have hplain := Param.isBody_of_isPath hpath
  rw [Param.mapFields_of_plain (isBody_led.trans hplain), led_of_plain hplain hfirst]

/-- After sharing, the path value of a name is the one that leads under it. -/
theorem pathValue?_shareValues : pathValue? a.shareValues.params name =
    (pathValue? a.params name).bind fun _ => leadValue? a.params name := by
  show pathValue? (shareWithBodies (sharePlain a.params)) name = _
  rw [shareWithBodies_eq, sharePlain_eq, List.map_map]
  unfold pathValue?
  rw [List.find?_map]
  simp only [Function.comp_def, Param.isPath_mapFields, isPath_led, Param.name_mapFields, name_led]
  cases hfound : a.params.find? fun p => p.isPath && p.name = name with
  | none => rfl
  | some p =>
    obtain ⟨hpath, rfl⟩ : p.isPath = true ∧ p.name = name := by simpa using List.find?_some hfound
    obtain ⟨first, hfirst⟩ := exists_firstPlain? (List.mem_of_find?_eq_some hfound)
      (Param.isBody_of_isPath hpath)
    simp [leadValue?, hfirst, mapFields_led hpath hfirst]

/-- The path value of each name is the one that leads under it. -/
def PathValuesLead (a : Action) : Prop :=
  ∀ p ∈ a.params, p.isPath = true → leadValue? a.params p.name = pathValue? a.params p.name

instance : DecidablePred PathValuesLead := fun a =>
  inferInstanceAs (Decidable (∀ p ∈ a.params, p.isPath = true →
    leadValue? a.params p.name = pathValue? a.params p.name))

theorem PathsLead.pathValuesLead (h : a.PathsLead) : a.PathValuesLead := by
  intro p hp hpath
  obtain ⟨first, hfirst⟩ := exists_firstPlain? hp (Param.isBody_of_isPath hpath)
  rw [pathValue?_of_lead hfirst (h p hp hpath first hfirst), leadValue?, hfirst, Option.map_some]

/-- Sharing leaves path values alone where they lead. -/
theorem PathValuesLead.pathValue?_shareValues (h : a.PathValuesLead) :
    pathValue? a.shareValues.params name = pathValue? a.params name := by
  rw [Action.pathValue?_shareValues]
  cases hv : pathValue? a.params name with
  | none => rfl
  | some v =>
    obtain ⟨p, hp, hpath, rfl, -⟩ := exists_of_pathValue? hv
    exact (h p hp hpath).trans hv

theorem PathsLead.pathValue?_shareValues (h : a.PathsLead) :
    pathValue? a.shareValues.params name = pathValue? a.params name :=
  h.pathValuesLead.pathValue?_shareValues

theorem followParam_of_isPath {p : Param} (h : p.isPath = true) : followParam other p = p := by
  have hplace : p.place = .path := by simpa [Param.isPath] using h
  unfold followParam
  rw [hplace]

/-- What is taken over by name stays out of the path. -/
theorem pathValue?_follow :
    pathValue? (a.follow other).params name = pathValue? (a.followPath other).params name :=
  pathValue?_congr (filter_map_eq_self (fun _ => congrArg (·.2.1) label_followParam)
    fun _ _ => followParam_of_isPath)

/-! ## Declared path parameters -/

/-- Every variable of the path has exactly one path parameter, and no variable stands twice. -/
def DeclaresPath (a : Action) : Prop :=
  a.path.variableNames.Nodup ∧
    ∀ x ∈ a.path.variableNames, a.params.countP (fun p => p.isPath && p.name = x) = 1

instance : DecidablePred DeclaresPath := fun a =>
  inferInstanceAs (Decidable (a.path.variableNames.Nodup ∧
    ∀ x ∈ a.path.variableNames, a.params.countP (fun p => p.isPath && p.name = x) = 1))

/-- Values play no part in what is declared. -/
theorem DeclaresPath.of_blank (ha : a.DeclaresPath) (h : b.blank = a.blank) : b.DeclaresPath := by
  have hcount : ∀ (c : Action) (x : String), c.params.countP (fun p => p.isPath && p.name = x) =
      c.labels.countP fun l => l.2.1 && l.1 = x := by
    intro c x
    unfold labels
    rw [List.countP_map]
    rfl
  have hpath : b.blank.path = a.blank.path := congrArg Action.path h
  unfold DeclaresPath
  rw [show b.path = a.path from hpath]
  refine ⟨ha.1, fun x hx => ?_⟩
  rw [hcount, labels_of_blank h, ← hcount]
  exact ha.2 x hx

theorem DeclaresPath.exists_pathValue (ha : a.DeclaresPath) {n : Nat} {x : String}
    (hx : a.path.elements[n]? = some (.var x)) : ∃ v, pathValue? a.params x = some v := by
  have hmem : x ∈ a.path.variableNames :=
    List.mem_filterMap.2 ⟨.var x, List.mem_of_getElem? hx, rfl⟩
  have hfound : (a.params.find? fun p => p.isPath && p.name = x).isSome := by
    rw [List.find?_isSome, ← List.countP_pos_iff, ha.2 x hmem]
    exact Nat.one_pos
  obtain ⟨p, hp⟩ := Option.isSome_iff_exists.1 hfound
  exact ⟨p.value, congrArg (Option.map Param.value) hp⟩

/-! ## Names apart -/

/-- The names of the parameters that are no bodies. -/
def plainNames (a : Action) : List String := (a.params.filter fun p => !p.isBody).map (·.name)

/-- Where no two plain parameters have one name, each leads under its own. -/
theorem first_eq_of_nodup {p : Param} (h : a.plainNames.Nodup) (hp : p ∈ a.params)
    (hplain : p.isBody = false) (hfirst : firstPlain? a.params p.name = some first) :
    first = p := by
  obtain ⟨hplain', hname⟩ := plain_of_firstPlain? hfirst
  have hp' : p ∈ a.params.filter fun p => !p.isBody := List.mem_filter.2 ⟨hp, by simp [hplain]⟩
  have hfirst' : first ∈ a.params.filter fun p => !p.isBody :=
    List.mem_filter.2 ⟨List.mem_of_find?_eq_some hfirst, by simp [hplain']⟩
  exact List.inj_on_of_nodup_map h hfirst' hp' hname

theorem pathsLead_of_nodup (h : a.plainNames.Nodup) : a.PathsLead := by
  intro p hp hpath first hfirst
  rwa [first_eq_of_nodup h hp (Param.isBody_of_isPath hpath) hfirst]

/-- The variables of the path stand once and have path parameters, and no two parameters that are no
bodies share a name. -/
structure NamesVariables (a : Action) : Prop where
  distinct : a.path.variableNames.Nodup
  declared : ∀ x ∈ a.path.variableNames, ∃ p ∈ a.params, p.isPath = true ∧ p.name = x
  apart : a.plainNames.Nodup

instance : DecidablePred NamesVariables := fun a =>
  decidable_of_iff (a.path.variableNames.Nodup ∧
      (∀ x ∈ a.path.variableNames, ∃ p ∈ a.params, p.isPath = true ∧ p.name = x) ∧
      a.plainNames.Nodup)
    ⟨fun h => ⟨h.1, h.2.1, h.2.2⟩, fun h => ⟨h.distinct, h.declared, h.apart⟩⟩

theorem NamesVariables.declaresPath (h : a.NamesVariables) : a.DeclaresPath := by
  refine ⟨h.distinct, fun x hx => Nat.le_antisymm ?_ ?_⟩
  · calc a.params.countP (fun p => p.isPath && p.name = x)
        ≤ a.params.countP (fun p => p.name = x && !p.isBody) := by
          refine List.countP_mono_left fun p _ hp => ?_
          obtain ⟨hpath, hname⟩ : p.isPath = true ∧ p.name = x := by simpa using hp
          simp [hname, Param.isBody_of_isPath hpath]
      _ = a.plainNames.count x := by
          rw [plainNames, List.count_eq_countP, List.countP_map, List.countP_filter]
          rfl
      _ ≤ 1 := List.nodup_iff_count_le_one.1 h.apart x
  · obtain ⟨p, hp, hpath, hname⟩ := h.declared x hx
    exact List.countP_pos_iff.2 ⟨p, hp, by simp [hpath, hname]⟩

end Action

end RestScenario
