import RestScenario.Proofs.Computation
import RestScenario.Proofs.Ordered.Map
import RestScenario.Proofs.Ordered.Set
import RestScenario.Resource.Basic

/-!
# What a record is made of

A resource files the parameters of its actions in one walk over the actions. The first parameter of a
key makes the record, and those that come later add their verbs and change nothing else. So what a
record says is what one declaration says: the first parameter of the key in the first action that has
one (`ParamRecord.get?_ofActions`). The verbs alone are those of all actions that declare the key.

Main statement: `ParamRecord.get?_ofActions`.
-/

namespace RestScenario

/-! ## Declarations -/

/-- The first parameter that is filed under a key. -/
def Action.declared? (a : Action) (key : String) : Option Param :=
  a.params.find? fun p => a.paramKey p = key

namespace ParamRecord

variable {chain : CreationChain} {actions actions' : List Action} {key : String} {a : Action}
  {p : Param} {d : Action × Param} {r : ParamRecord}

/-- The actions that have a parameter of a key, each with the first such parameter. -/
def declarations (actions : List Action) (key : String) : List (Action × Param) :=
  actions.filterMap fun a => (a.declared? key).map fun p => (a, p)

theorem mem_declarations :
    d ∈ declarations actions key ↔ d.1 ∈ actions ∧ d.1.declared? key = some d.2 := by
  unfold declarations
  rw [List.mem_filterMap]
  constructor
  · rintro ⟨a, ha, hd⟩
    obtain ⟨p, hp, rfl⟩ := Option.map_eq_some_iff.1 hd
    exact ⟨ha, hp⟩
  · rintro ⟨ha, hp⟩
    exact ⟨d.1, ha, Option.map_eq_some_iff.2 ⟨d.2, hp, rfl⟩⟩

/-- A declaration is a parameter of one of the actions, filed under the key. -/
theorem of_mem_declarations (h : d ∈ declarations actions key) :
    d.1 ∈ actions ∧ d.2 ∈ d.1.params ∧ d.1.paramKey d.2 = key := by
  obtain ⟨ha, hp⟩ := mem_declarations.1 h
  exact ⟨ha, List.mem_of_find?_eq_some hp, by simpa using List.find?_some hp⟩

/-- An action with a parameter of the key declares the key. -/
theorem exists_declaration (ha : a ∈ actions) (hp : p ∈ a.params) :
    ∃ q, (a, q) ∈ declarations actions (a.paramKey p) := by
  have hfound : (a.declared? (a.paramKey p)).isSome = true :=
    List.find?_isSome.2 ⟨p, hp, decide_eq_true rfl⟩
  obtain ⟨q, hq⟩ := Option.isSome_iff_exists.1 hfound
  exact ⟨q, mem_declarations.2 ⟨ha, hq⟩⟩

theorem declarations_perm (h : actions'.Perm actions) :
    (declarations actions' key).Perm (declarations actions key) := h.filterMap _

/-! ## The walk -/

/-- The parameters of actions, each with its action. -/
def uses (actions : List Action) : List (Action × Param) :=
  actions.flatMap fun a => a.params.map fun p => (a, p)

theorem find?_uses : ((uses actions).find? fun use => use.1.paramKey use.2 = key) =
    (declarations actions key).head? := by
  unfold uses declarations Action.declared?
  rw [List.find?_flatMap, List.head?_filterMap]
  simp only [List.find?_map]
  rfl

theorem mem_verbs_uses {v : Verb} :
    v ∈ ((uses actions).filter fun use => use.1.paramKey use.2 = key).map (·.1.verb) ↔
      v ∈ (declarations actions key).map (·.1.verb) := by
  rw [List.mem_map, List.mem_map]
  constructor
  · rintro ⟨⟨a, p⟩, huse, rfl⟩
    obtain ⟨hmem, hkey⟩ := List.mem_filter.1 huse
    obtain ⟨b, hb, hp⟩ := List.mem_flatMap.1 hmem
    obtain ⟨q, hq, heq⟩ := List.mem_map.1 hp
    obtain ⟨rfl, rfl⟩ := Prod.mk.inj heq
    obtain ⟨first, hfirst⟩ := exists_declaration hb hq
    have hkey : b.paramKey q = key := by simpa using hkey
    exact ⟨(b, first), hkey ▸ hfirst, rfl⟩
  · rintro ⟨d, hd, rfl⟩
    obtain ⟨ha, hp, hkey⟩ := of_mem_declarations hd
    refine ⟨d, List.mem_filter.2 ⟨?_, decide_eq_true hkey⟩, rfl⟩
    exact List.mem_flatMap.2 ⟨d.1, ha, List.mem_map.2 ⟨d.2, hp, rfl⟩⟩

/-- A record that is there gains verbs and keeps all else. -/
theorem get?_foldl_note_of_some {records : SortedMap String ParamRecord} {uses : List (Action × Param)}
    (h : records.get? key = some r) : (uses.foldl (note chain) records).get? key =
      some { r with
        involvedVerbs := r.involvedVerbs.insertMany
          ((uses.filter fun use => use.1.paramKey use.2 = key).map (·.1.verb)) } := by
  induction uses generalizing records r with
  | nil => exact h
  | cons use rest ih =>
    rw [List.foldl_cons]
    by_cases hkey : use.1.paramKey use.2 = key
    · have hnoted : (note chain records use).get? key = some (r.involve use.1.verb) := by
        unfold note
        rw [hkey, SortedMap.get?_upsert_self, h]
      rw [ih hnoted, List.filter_cons_of_pos (by simpa using hkey)]
      rfl
    · have hnoted : (note chain records use).get? key = some r := by
        unfold note
        rw [SortedMap.get?_upsert_of_ne _ (Ne.symm hkey), h]
      rw [ih hnoted, List.filter_cons_of_neg (by simpa using hkey)]

/-- A record that is not there is made of the first parameter of the key. -/
theorem get?_foldl_note_of_none {records : SortedMap String ParamRecord} {uses : List (Action × Param)}
    (h : records.get? key = none) : (uses.foldl (note chain) records).get? key =
      (uses.find? fun use => use.1.paramKey use.2 = key).map fun use =>
        { ofParam chain use.1 use.2 with
          involvedVerbs := .ofList
            ((uses.filter fun use => use.1.paramKey use.2 = key).map (·.1.verb)) } := by
  induction uses generalizing records with
  | nil => exact h
  | cons use rest ih =>
    rw [List.foldl_cons]
    by_cases hkey : use.1.paramKey use.2 = key
    · have hnoted : (note chain records use).get? key = some (ofParam chain use.1 use.2) := by
        unfold note
        rw [hkey, SortedMap.get?_upsert_self, h]
      rw [get?_foldl_note_of_some hnoted, List.find?_cons_of_pos (by simpa using hkey),
        List.filter_cons_of_pos (by simpa using hkey)]
      rfl
    · have hnoted : (note chain records use).get? key = none := by
        unfold note
        rw [SortedMap.get?_upsert_of_ne _ (Ne.symm hkey), h]
      rw [ih hnoted, List.find?_cons_of_neg (by simpa using hkey),
        List.filter_cons_of_neg (by simpa using hkey)]

/-- **A record says what the first declaration of its key says**, and has the verbs of all. -/
theorem get?_ofActions : (ofActions chain actions).get? key =
    (declarations actions key).head?.map fun d =>
      { ofParam chain d.1 d.2 with
        involvedVerbs := .ofList ((declarations actions key).map (·.1.verb)) } := by
  have hverbs : SortedSet.ofList
      (((uses actions).filter fun use => use.1.paramKey use.2 = key).map (·.1.verb)) =
        .ofList ((declarations actions key).map (·.1.verb)) :=
    SortedSet.ext_mem fun v => by
      rw [SortedSet.mem_ofList, SortedSet.mem_ofList, mem_verbs_uses]
  rw [← find?_uses, ← hverbs]
  exact get?_foldl_note_of_none rfl

end ParamRecord

/-! ## Records of a model -/

/-- A resource of a model is that of a site of an accepted catalogue. -/
theorem ResourceModel.exists_site {c : Catalogue} {m : ResourceModel} {key : String} {r : Resource}
    (hm : ofCatalogue c = .ok m) (hr : m.get? key = some r) :
    c.validate = .ok () ∧ ∃ s, (Sites.ofCatalogue c).get? key = some s ∧
      Resource.ofSite (Sites.ofCatalogue c) s = r := by
  obtain ⟨_, hc, hbuilt⟩ := bind_eq_ok.1 hm
  obtain rfl := Except.ok.inj hbuilt
  exact ⟨hc, Option.map_eq_some_iff.1 (SortedMap.get?_map.symm.trans hr)⟩

end RestScenario
