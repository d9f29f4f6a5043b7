import RestScenario.Engine.Seeding
import RestScenario.Proofs.Action.Sharing

/-!
# Outlines of actions and calls

The outline of an action is what values do not change: its verb, its path, its locations, and the names
and places of its parameters. Values are drawn, shared, bound from rows and taken over from other
actions, and none of this shows in an outline. Nor does any of it put a call on another resource, under
another template, or touch the authentication of an action. So all of this is settled when the call is
built, its resource and its outline above all (`Call.form_bindAt`, `Engine.form_attachRows`).
-/

namespace RestScenario

/-! ## Parameters -/

/-- The place; of a body, without its fields. -/
def Place.blank : Place → Place
  | .body _ _ => .body none []
  | place => place

namespace Param

variable {p : Param}

/-- The parameter without values and body fields. -/
def blank (p : Param) : Param := { p with place := p.place.blank, value := .null }

theorem blank_mapFields {change : List Field → List Field} : (p.mapFields change).blank = p.blank := by
  obtain ⟨name, place, type, required, default, value⟩ := p
  cases place <;> rfl

@[simp]
theorem blank_blank : p.blank.blank = p.blank := by
  obtain ⟨name, place, type, required, default, value⟩ := p
  cases place <;> rfl

theorem blank_randomize {source : Random.Source} : (p.randomize.run source).1.blank = p.blank := by
  obtain ⟨name, place, type, required, default, value⟩ := p
  cases place <;> rfl

end Param

/-! ## Actions -/

namespace Action

variable {a other : Action} {source : Random.Source}

/-- The action without values. -/
def blank (a : Action) : Action := { a with params := a.params.map Param.blank }

/-- The action without values and credentials. -/
def outline (a : Action) : Action := { a.blank with auth := none }

theorem outline_of_blank {b : Action} (h : b.blank = a.blank) : b.outline = a.outline :=
  congrArg (fun blank : Action => { blank with auth := none }) h

@[simp]
theorem blank_blank : a.blank.blank = a.blank := by
  unfold blank
  dsimp only
  rw [List.map_map]
  exact congrArg (fun params => { a with params }) (List.map_congr_left fun _ _ => Param.blank_blank)

/-- What is settled of an action where it is declared: its verb, its path and its parameters without
values. -/
def signature (a : Action) : Verb × PathTemplate × List Param :=
  (a.verb, a.path, a.params.map Param.blank)

theorem signature_eq_iff {b : Action} : a.signature = b.signature ↔
    a.verb = b.verb ∧ a.path = b.path ∧ a.params.map Param.blank = b.params.map Param.blank :=
  Prod.ext_iff.trans (and_congr_right fun _ => Prod.ext_iff)

@[simp]
theorem signature_outline : a.outline.signature = a.signature :=
  congrArg (fun blank : Action => (a.verb, a.path, blank.params)) blank_blank

theorem blank_led {lead : String → Option Param} {p : Param} : (led lead p).blank = p.blank := by
  unfold led
  split <;> rfl

/-- An action whose parameters have changed in values alone is the same without them. -/
theorem blank_with_params {params : List Param}
    (h : params.map Param.blank = a.params.map Param.blank) : blank { a with params } = a.blank :=
  congrArg (fun params => { a with params }) h

@[simp]
theorem blank_shareValues : a.shareValues.blank = a.blank := by
  refine blank_with_params ?_
  rw [shareWithBodies_eq, sharePlain_eq, List.map_map, List.map_map]
  exact List.map_congr_left fun p _ => Param.blank_mapFields.trans blank_led

@[simp]
theorem blank_followPath : (a.followPath other).blank = a.blank := by
  rw [followPath_eq]
  exact blank_with_params (map_setPathValues fun _ _ _ => rfl)

theorem blank_followParam {p : Param} : (followParam other p).blank = p.blank := by
  obtain ⟨name, place, type, required, default, value⟩ := p
  unfold followParam
  cases place with
  | path => rfl
  | query | header =>
    dsimp only
    split <;> rfl
  | body refType fields => rfl

@[simp]
theorem blank_follow : (a.follow other).blank = a.blank := by
  have hparams : ∀ b : Action, blank { b with params := b.params.map (followParam other) } = b.blank := by
    intro b
    refine blank_with_params ?_
    rw [List.map_map]
    exact List.map_congr_left fun p _ => blank_followParam
  exact (hparams _).trans blank_followPath

@[simp]
theorem blank_randomize : (a.randomize.run source).1.blank = a.blank := by
  have hdrawn : ∀ (params : List Param) (source : Random.Source),
      ((drawParams params).run source).1.map Param.blank = params.map Param.blank := by
    intro params
    induction params with
    | nil => exact fun _ => rfl
    | cons p rest ih => exact fun source => congrArg₂ List.cons Param.blank_randomize (ih _)
  exact (blank_shareValues (a := { a with params := _ })).trans (blank_with_params (hdrawn _ _))

theorem outline_randomize : (a.randomize.run source).1.outline = a.outline :=
  outline_of_blank blank_randomize

end Action

/-! ## Calls -/

namespace Call

variable {c : Call} {front : List Action} {s : Scenario} {position : Nat}

/-- The outlines of the actions. -/
def outline (c : Call) : List Action := c.actions.map Action.outline

theorem length_outline : c.outline.length = c.length := List.length_map _

/-- What no change of values or rows touches: the template, the resource, and the actions without
their values. -/
def form (c : Call) : Template × String × List Action :=
  (c.template, c.resource, c.actions.map Action.blank)

/-- Of the form of a call, the resource and the outlines of the actions. -/
def frame (c : Call) : String × List Action := (c.resource, c.outline)

theorem frame_of_form {c' : Call} (h : c'.form = c.form) : c'.frame = c.frame := by
  obtain ⟨-, h⟩ := Prod.mk.inj h
  obtain ⟨hresource, hblank⟩ := Prod.mk.inj h
  have houtline := congrArg (List.map fun a : Action => { a with auth := none }) hblank
  rw [List.map_map, List.map_map] at houtline
  exact Prod.ext hresource houtline

theorem resource_of_frame {c' : Call} (h : c'.frame = c.frame) : c'.resource = c.resource :=
  congrArg Prod.fst h

theorem outline_of_frame {c' : Call} (h : c'.frame = c.frame) : c'.outline = c.outline :=
  congrArg Prod.snd h

theorem form_realign : c.realign.form = c.form := by
  unfold realign
  split
  · rfl
  · split
    · rfl
    · refine congrArg (fun blanks => (c.template, c.resource, blanks)) (List.ext_getElem? fun j => ?_)
      simp only [List.getElem?_map, List.getElem?_mapIdx]
      cases c.actions[j]? with
      | none => rfl
      | some a =>
        simp only [Option.map_some, Action.blank_shareValues]
        split
        · rfl
        · rw [Action.blank_followPath]

theorem frame_realign : c.realign.frame = c.frame := frame_of_form form_realign

theorem blank_followAll (a : Action) : (followAll front a).blank = a.blank := by
  unfold followAll
  refine List.foldlRecOn (motive := fun b : Action => b.blank = a.blank) front _ rfl
    fun b h other _ => ?_
  split
  · exact Action.blank_follow.trans h
  · exact h

theorem form_bindWith : (c.bindWith front).form = c.form := by
  unfold bindWith
  rw [form_realign]
  refine congrArg (fun blanks => (c.template, c.resource, blanks)) ?_
  rw [List.map_map]
  exact List.map_congr_left fun a _ => blank_followAll a

theorem form_dropProvided {preceding : List RowAction} :
    (c.dropProvided preceding).form = c.form := by
  unfold dropProvided
  dsimp only
  split <;> rfl

theorem form_bindAfter {calls : List Call} {rows : List RowAction} :
    (c.bindAfter calls rows).form = c.form := by
  unfold bindAfter
  dsimp only
  rw [form_dropProvided]
  split
  · rfl
  · exact form_bindWith

theorem form_bindAt : (c.bindAt s position).form = c.form := form_bindAfter

theorem frame_bindAfter {calls : List Call} {rows : List RowAction} :
    (c.bindAfter calls rows).frame = c.frame := frame_of_form form_bindAfter

theorem frame_bindAt : (c.bindAt s position).frame = c.frame := frame_of_form form_bindAt

end Call

theorem ColumnBinding.blank_apply {b : ColumnBinding} {rows : List RowAction} {state : Param × Nat} :
    (b.apply rows state).1.blank = state.1.blank := by
  unfold apply
  dsimp only
  split
  · rfl
  · split
    · rfl
    · split
      · exact Param.blank_mapFields
      · rfl

namespace Knowledge

variable {k : Knowledge} {r : Resource} {c : Call} {bindings : List ColumnBinding}
  {rows : List RowAction}

theorem blank_bindParam {key : Option String} {p : Param} :
    (bindParam bindings rows key p).1.blank = p.blank := by
  unfold bindParam
  cases key with
  | none => rfl
  | some key =>
    exact List.foldlRecOn (motive := fun state : Param × Nat => state.1.blank = p.blank) _ _ rfl
      fun _ h _ _ => ColumnBinding.blank_apply.trans h

theorem blank_bindAction {created : Bool} {a : Action} :
    (bindAction bindings rows r created a).1.blank = a.blank := by
  unfold bindAction
  dsimp only
  refine Action.blank_with_params ?_
  rw [List.map_map, List.map_map]
  exact List.map_congr_left fun p _ => blank_bindParam

theorem form_bindCall : (k.bindCall r c).1.form = c.form := by
  unfold bindCall
  dsimp only
  split
  · rfl
  · have bound : Call.form { c with
        actions := (c.actions.map (bindAction (k.bindings c.resource) c.rows r
          (c.status = .created))).map (·.1) } = c.form := by
      refine congrArg (fun blanks => (c.template, c.resource, blanks)) ?_
      rw [List.map_map, List.map_map]
      exact List.map_congr_left fun a _ => blank_bindAction
    split
    · rw [Call.form_realign]
      exact bound
    · exact bound

end Knowledge

theorem Engine.form_attachRows {e : Engine} {c : Call} {wanted : Bool} {rows : List RowAction} :
    (e.attachRows c wanted rows).form = c.form := by
  unfold attachRows
  split
  · split <;> rfl
  · dsimp only
    split
    · exact Knowledge.form_bindCall
    · rfl

namespace Scenario

/-- The outlines of the calls. -/
def outlines (s : Scenario) : List (List Action) := s.calls.map Call.outline

theorem size_eq_length_flatten (s : Scenario) : s.size = s.outlines.flatten.length := by
  have hflatten : s.outlines.flatten = (s.calls.flatMap (·.actions)).map Action.outline := by
    rw [List.map_flatMap, List.flatMap_def]
    rfl
  rw [hflatten, List.length_map]
  rfl

/-- The repair of a scenario shows in a call only through its realignment and its rows. -/
theorem map_calls_repair {β : Type} {f : Call → β} {s : Scenario}
    (hf : ∀ (c : Call) (rows : List RowAction), f { c with rows } = f c) :
    s.repair.calls.map f = s.calls.map fun c => f c.realign := by
  have hrows : ∀ (preceding : List RowAction) (calls : List Call),
      (repairCalls preceding calls).map f = calls.map f := by
    intro preceding calls
    induction calls generalizing preceding with
    | nil => rfl
    | cons c rest ih =>
      rw [repairCalls, List.map_cons, List.map_cons, ih]
      exact congrArg (· :: _) (hf c _)
  unfold repair repairReferences
  dsimp only
  rw [hrows, List.map_map]
  rfl

/-- A repair changes no outline. -/
theorem outlines_repair {s : Scenario} : s.repair.outlines = s.outlines := by
  unfold outlines
  rw [map_calls_repair fun _ _ => rfl]
  exact List.map_congr_left fun c _ => Call.outline_of_frame Call.frame_realign

/-- A repair leaves every call on its resource. -/
theorem resources_repair {s : Scenario} :
    s.repair.calls.map Call.resource = s.calls.map Call.resource := by
  rw [map_calls_repair fun _ _ => rfl]
  exact List.map_congr_left fun c _ => Call.resource_of_frame Call.frame_realign

end Scenario

end RestScenario
