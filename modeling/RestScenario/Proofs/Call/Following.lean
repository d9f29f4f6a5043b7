import Mathlib.Data.List.Forall2
import RestScenario.Proofs.Call.Instance

/-!
# Where path values come from

A call that follows others takes over path values from them. `Action.TakesFrom V` relates an action
to what becomes of it: parameters and places stay, and each path value is the old one or is in `V`.
An action that follows another takes its path values (`Action.takesFrom_follow`). Steps that move
path values around inside a call add none: run on a call and on what became of it, they lead to
calls that are related again (`Call.takesFrom_realign`).

So where a realignment leaves a call alone (`Call.Aligned`), each of its path values stays or is
replaced by one of the actions that the call follows (`Call.takesFrom_bindWith`).
-/

namespace RestScenario

variable {V : Value → Prop} {v w : Value}

/-! ## Parameters -/

/-- The parameter is the same but for its value, and a path value is the old one or in `V`. -/
structure Param.TakesFrom (V : Value → Prop) (p q : Param) : Prop where
  label : q.label = p.label
  value : p.isPath = true → q.value = p.value ∨ V q.value

namespace Param.TakesFrom

variable {p q r : Param}

theorem refl : p.TakesFrom V p := ⟨rfl, fun _ => .inl rfl⟩

theorem name_eq (h : p.TakesFrom V q) : q.name = p.name := congrArg Prod.fst h.label

theorem isPath_eq (h : p.TakesFrom V q) : q.isPath = p.isPath := congrArg (·.2.1) h.label

theorem trans (h : p.TakesFrom V q) (h' : q.TakesFrom V r) : p.TakesFrom V r where
  label := h'.label.trans h.label
  value hpath := by
    rcases h'.value (h.isPath_eq.trans hpath) with heq | hV
    · rw [heq]
      exact h.value hpath
    · exact .inr hV

theorem with_values (h : p.TakesFrom V q) (hvw : w = v ∨ V w) :
    Param.TakesFrom V { p with value := v } { q with value := w } where
  label := Param.label_with_value.trans (h.label.trans Param.label_with_value.symm)
  value _ := hvw

end Param.TakesFrom

/-- Parameters one by one. -/
abbrev ParamsTakeFrom (V : Value → Prop) : List Param → List Param → Prop :=
  List.Forall₂ (Param.TakesFrom V)

namespace ParamsTakeFrom

variable {ps qs : List Param}

/-- A search by label finds related parameters. -/
theorem find? (h : ParamsTakeFrom V ps qs) (test : Param → Bool)
    (htest : ∀ p q : Param, q.label = p.label → test q = test p) :
    Option.Rel (Param.TakesFrom V) (ps.find? test) (qs.find? test) := by
  induction h with
  | nil => exact .none
  | @cons p q ps qs hpq _ ih =>
    rw [List.find?_cons, List.find?_cons, htest p q hpq.label]
    cases test p with
    | true => exact .some hpq
    | false => exact ih

theorem firstPlain? (h : ParamsTakeFrom V ps qs) (name : String) :
    Option.Rel (Param.TakesFrom V) (Action.firstPlain? ps name) (Action.firstPlain? qs name) := by
  refine h.find? _ fun p q hlabel => ?_
  obtain ⟨hname, -, hbody⟩ : q.name = p.name ∧ q.isPath = p.isPath ∧ q.isBody = p.isBody := by
    simpa [Param.label] using hlabel
  rw [hname, hbody]

/-- The path value of a name is the old one or in `V`. -/
theorem pathValue? (h : ParamsTakeFrom V ps qs) (name : String) :
    Option.Rel (fun v w => w = v ∨ V w) (RestScenario.pathValue? ps name)
      (RestScenario.pathValue? qs name) := by
  have hfound := h.find? (fun p => p.isPath && p.name = name) fun p q hlabel => by
    obtain ⟨hname, hpath, -⟩ : q.name = p.name ∧ q.isPath = p.isPath ∧ q.isBody = p.isBody := by
      simpa [Param.label] using hlabel
    rw [hname, hpath]
  have hpath : ∀ p, ps.find? (fun p => p.isPath && p.name = name) = some p → p.isPath = true := by
    intro p hp
    have hboth : p.isPath = true ∧ p.name = name := by simpa using List.find?_some hp
    exact hboth.1
  unfold RestScenario.pathValue?
  generalize ps.find? (fun p => p.isPath && p.name = name) = found,
    qs.find? (fun p => p.isPath && p.name = name) = found' at hfound hpath
  cases hfound with
  | none => exact .none
  | some hpq => exact .some (hpq.value (hpath _ rfl))

theorem setPathValue (h : ParamsTakeFrom V ps qs) (hvw : w = v ∨ V w) :
    ParamsTakeFrom V (Action.setPathValue name v ps) (Action.setPathValue name w qs) := by
  induction h with
  | nil => exact .nil
  | @cons p q ps qs hpq hrest ih =>
    have htest : (q.isPath && q.name = name) = (p.isPath && p.name = name) := by
      rw [hpq.isPath_eq, hpq.name_eq]
    rw [Action.setPathValue, Action.setPathValue, htest]
    split
    · exact .cons (hpq.with_values hvw) hrest
    · exact .cons hpq ih

/-- Setting a value of `V` on one side. -/
theorem setPathValue_right (h : ParamsTakeFrom V ps qs) (hw : V w) :
    ParamsTakeFrom V ps (Action.setPathValue name w qs) := by
  induction h with
  | nil => exact .nil
  | @cons p q ps qs hpq hrest ih =>
    rw [Action.setPathValue]
    split
    · exact .cons (hpq.trans ⟨Param.label_with_value, fun _ => .inr hw⟩) hrest
    · exact .cons hpq ih

end ParamsTakeFrom

/-! ## Actions -/

/-- The action is the same but for values, and each path value is the old one or in `V`. -/
structure Action.TakesFrom (V : Value → Prop) (a b : Action) : Prop where
  path : b.path = a.path
  params : ParamsTakeFrom V a.params b.params

namespace Action

variable {a b t u other : Action}

theorem TakesFrom.refl : a.TakesFrom V a := ⟨rfl, List.forall₂_same.2 fun _ _ => .refl⟩

theorem TakesFrom.followPath (h : a.TakesFrom V b) (ht : t.TakesFrom V u) :
    (a.followPath t).TakesFrom V (b.followPath u) where
  path := h.path
  params := by
    unfold Action.followPath
    rw [h.path, ht.path]
    have hparams := h.params
    -- both sides set values for the same names, one after another
    generalize a.params = ps, b.params = qs at hparams
    generalize sharedVariables a.path t.path = shared
    induction shared generalizing ps qs with
    | nil => exact hparams
    | cons e rest ih =>
      rw [List.foldl_cons, List.foldl_cons]
      refine ih _ _ ?_
      have hvalue := ht.params.pathValue? e.2
      dsimp only
      generalize pathValue? t.params e.2 = v, pathValue? u.params e.2 = w at hvalue ⊢
      cases hvalue with
      | none => exact hparams
      | some hvw => exact hparams.setPathValue hvw

theorem takesFrom_followPath (h : a.TakesFrom V b)
    (hother : ∀ name, ∀ v ∈ pathValue? other.params name, V v) :
    a.TakesFrom V (b.followPath other) where
  path := h.path
  params := by
    unfold followPath
    refine List.foldlRecOn (motive := ParamsTakeFrom V a.params)
      (sharedVariables b.path other.path) _ h.params fun qs hqs e _ => ?_
    obtain ⟨mine, theirs⟩ := e
    dsimp only
    cases hv : pathValue? other.params theirs with
    | none => exact hqs
    | some v => exact hqs.setPathValue_right (hother theirs v hv)

theorem takesFrom_followParam {p : Param} : p.TakesFrom V (followParam other p) where
  label := label_followParam
  value hpath := .inl (congrArg Param.value (followParam_of_isPath hpath))

/-- Following an action takes its path values. -/
theorem takesFrom_follow (h : a.TakesFrom V b)
    (hother : ∀ name, ∀ v ∈ pathValue? other.params name, V v) :
    a.TakesFrom V (b.follow other) where
  path := h.path
  params := by
    unfold follow
    dsimp only
    refine List.forall₂_map_right_iff.2 ?_
    exact (takesFrom_followPath h hother).params.imp fun _ _ hpq =>
      hpq.trans takesFrom_followParam

/-- Where path parameters lead, sharing adds no path value. -/
theorem TakesFrom.shareValues (h : a.TakesFrom V b) (hlead : a.PathsLead) :
    a.shareValues.TakesFrom V b.shareValues where
  path := h.path
  params := by
    have hparams : List.Forall₂ (fun p q => p ∈ a.params ∧ p.TakesFrom V q) a.params b.params :=
      (List.forall₂_and_left _ _).2 ⟨fun _ hp => hp, h.params⟩
    show ParamsTakeFrom V (shareWithBodies (sharePlain a.params))
      (shareWithBodies (sharePlain b.params))
    rw [shareWithBodies_eq, shareWithBodies_eq, sharePlain_eq, sharePlain_eq, List.map_map,
      List.map_map]
    refine List.forall₂_map_left_iff.2 (List.forall₂_map_right_iff.2 (hparams.imp ?_))
    rintro p q ⟨hp, hpq⟩
    refine ⟨?_, fun hpath => ?_⟩
    · calc _ = q.label := Param.label_mapFields.trans label_led
        _ = p.label := hpq.label
        _ = _ := (Param.label_mapFields.trans label_led).symm
    · -- both sides take the values of what leads, and that is a path parameter
      have hpath : p.isPath = true := by
        simpa [Param.isPath_mapFields, isPath_led] using hpath
      obtain ⟨first, hfirst⟩ := exists_firstPlain? hp (Param.isBody_of_isPath hpath)
      have hleads := h.params.firstPlain? p.name
      rw [hfirst] at hleads
      cases hfirst' : firstPlain? b.params p.name with
      | none =>
        rw [hfirst'] at hleads
        cases hleads
      | some first' =>
        rw [hfirst'] at hleads
        cases hleads with
        | some hrel =>
          simp only [Function.comp_apply]
          rw [mapFields_led hpath hfirst, mapFields_led (hpq.isPath_eq.trans hpath)
            (hpq.name_eq ▸ hfirst')]
          exact hrel.value (hlead p hp hpath first hfirst)

end Action

/-! ## Calls -/

namespace Call

variable {c d : Call} {front : List Action}

/-- The actions one by one. -/
abbrev TakesFrom (V : Value → Prop) (c d : Call) : Prop :=
  List.Forall₂ (Action.TakesFrom V) c.actions d.actions

theorem TakesFrom.targetIndex?_eq (h : c.TakesFrom V d) : d.targetIndex? = c.targetIndex? := by
  have hpaths : d.actions.map (·.path) = c.actions.map (·.path) := by
    refine List.forall₂_eq_eq_eq ▸ ?_
    exact List.forall₂_map_left_iff.2 (List.forall₂_map_right_iff.2 (h.flip.imp fun _ _ hab => hab.path))
  rw [Call.targetIndex?_eq, Call.targetIndex?_eq, hpaths]

/-- A realignment adds no path value where path parameters lead. -/
theorem takesFrom_realign (h : c.TakesFrom V d) (hlead : c.PathsLead) :
    c.realign.TakesFrom V d.realign := by
  cases hi : c.targetIndex? with
  | none =>
    have hi' := h.targetIndex?_eq.trans hi
    rw [realign_of_target?_none (by simp [target?, hi]),
      realign_of_target?_none (by simp [target?, hi'])]
    exact h
  | some i =>
    have hi' := h.targetIndex?_eq.trans hi
    obtain ⟨hlt, -⟩ := List.findIdx?_eq_some_iff_getElem.1 hi
    have hlt' : i < d.actions.length := h.length_eq ▸ hlt
    have htarget : c.actions[i].TakesFrom V d.actions[i] := h.get hlt hlt'
    rw [realign_eq hi (List.getElem?_eq_getElem hlt), realign_eq hi' (List.getElem?_eq_getElem hlt')]
    refine List.forall₂_iff_get.2 ⟨by simp [h.length_eq], fun j hj hj' => ?_⟩
    rw [List.length_mapIdx] at hj hj'
    have haction : c.actions[j].TakesFrom V d.actions[j] := h.get hj hj'
    have hleads := hlead c.actions[j] (List.getElem_mem hj)
    simp only [List.get_eq_getElem, List.getElem_mapIdx]
    split
    · exact haction.shareValues hleads
    · exact (haction.followPath htarget).shareValues
        (hleads.of_labels Action.labels_followPath)

/-- A realignment leaves the actions alone. -/
def Aligned (c : Call) : Prop := c.realign.actions = c.actions

instance : DecidablePred Aligned := fun c =>
  inferInstanceAs (Decidable (c.realign.actions = c.actions))

theorem actions_realign_congr (h : d.actions = c.actions) : d.realign.actions = c.realign.actions := by
  have hindex : d.targetIndex? = c.targetIndex? := by rw [targetIndex?_eq, targetIndex?_eq, h]
  unfold realign
  rw [hindex, h]
  cases c.targetIndex? with
  | none => exact h
  | some i =>
    dsimp only
    cases c.actions[i]? with
    | none => exact h
    | some target => rfl

theorem Aligned.of_actions (hc : c.Aligned) (h : d.actions = c.actions) : d.Aligned :=
  (actions_realign_congr h).trans (hc.trans h.symm)

theorem aligned_realign (hlead : c.PathsLead) : c.realign.Aligned := by
  cases h : c.target? with
  | none =>
    rw [realign_of_target?_none h]
    exact congrArg Call.actions (realign_of_target?_none h)
  | some target =>
    obtain ⟨i, hi, ht⟩ := Option.bind_eq_some_iff.1 h
    exact actions_realign_realign hi ht fun _ =>
      (hlead target (List.mem_of_getElem? ht)).pathValue?_shareValues

theorem takesFrom_followAll {a : Action}
    (hfront : ∀ other ∈ front, ∀ name, ∀ v ∈ pathValue? other.params name, V v) :
    a.TakesFrom V (followAll front a) := by
  unfold followAll
  refine List.foldlRecOn (motive := a.TakesFrom V) front _ .refl fun b hb other hother => ?_
  split
  · exact Action.takesFrom_follow hb (hfront other hother)
  · exact hb

/-- The path values of an aligned call stay, or are taken over from the actions that it follows. -/
theorem takesFrom_bindWith (haligned : c.Aligned) (hlead : c.PathsLead)
    (hfront : ∀ other ∈ front, ∀ name, ∀ v ∈ pathValue? other.params name, V v) :
    c.TakesFrom V (c.bindWith front) := by
  have followed : c.TakesFrom V { c with actions := c.actions.map (followAll front) } :=
    List.forall₂_map_right_iff.2 (List.forall₂_same.2 fun a _ => takesFrom_followAll hfront)
  have realigned : List.Forall₂ (Action.TakesFrom V) c.realign.actions (c.bindWith front).actions :=
    takesFrom_realign followed hlead
  rwa [haligned] at realigned

end Call

end RestScenario
