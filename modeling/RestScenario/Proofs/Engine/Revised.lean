import Mathlib.Data.List.Perm.Basic
import RestScenario.Proofs.Engine.Composed
import RestScenario.Proofs.Engine.Requests

/-!
# Revised scenarios

An edit removes a call, puts one in the place of another, adds one or moves two; the calls that come
in are sound and keep to what the scenario has left (`Revision`). Where in the scenario this happens
is of no account here, so revisions speak of outlines up to their order. The repair at the end of an
edit changes none, and a request that fails has changed none: whatever comes of a request, it leaves
a revision of the scenario that it met (`Mutator.edits_serve`).
-/

namespace RestScenario

/-! ## Calls by position -/

namespace Scenario

variable {s s' : Scenario} {position a b : Nat} {call old : Call}

theorem getElem?_of_call (h : s.call position = .ok call) : s.calls[position]? = some call := by
  unfold Scenario.call at h
  split at h
  · rename_i found
    exact found.trans (congrArg some (Except.ok.inj h))
  · cases h

/-- A scenario consists of any one of its calls and the others. -/
theorem perm_of_call (h : s.call position = .ok call) :
    s.outlines.Perm (call.outline :: (s.calls.eraseIdx position).map Call.outline) := by
  obtain ⟨hlt, rfl⟩ := List.getElem?_eq_some_iff.1 (getElem?_of_call h)
  exact ((List.getElem_cons_eraseIdx_perm hlt).symm).map Call.outline

theorem perm_of_removeCall (h : s.removeCall position = .ok s') :
    ∃ old : Call, s.outlines.Perm (old.outline :: s'.outlines) := by
  obtain ⟨old, hold, h⟩ := bind_eq_ok.1 h
  obtain rfl := Except.ok.inj h
  exact ⟨old, perm_of_call hold⟩

/-! What a change leaves of a scenario: its setup, and its calls up to their order. -/

theorem removeCall_sublist (h : s.removeCall position = .ok s') :
    s'.setup = s.setup ∧ s'.calls.Sublist s.calls := by
  obtain ⟨_, -, h⟩ := bind_eq_ok.1 h
  obtain rfl := Except.ok.inj h
  exact ⟨rfl, List.eraseIdx_sublist _ _⟩

theorem replaceCall_perm (hold : s.call position = .ok old)
    (h : s.replaceCall position call = .ok s') :
    s'.setup = s.setup ∧ s'.calls.Perm (call :: s.calls.eraseIdx position) := by
  obtain ⟨_, -, h⟩ := bind_eq_ok.1 h
  obtain rfl := Except.ok.inj h
  obtain ⟨hlt, -⟩ := List.getElem?_eq_some_iff.1 (getElem?_of_call hold)
  exact ⟨rfl, List.set_perm_cons_eraseIdx hlt call⟩

theorem addCall_perm (h : s.addCall position call = .ok s') :
    s'.setup = s.setup ∧ s'.calls.Perm (call :: s.calls) := by
  unfold addCall at h
  split at h
  · cases h
  · rename_i hle
    obtain rfl := Except.ok.inj h
    exact ⟨rfl, List.perm_insertIdx call s.calls (Nat.le_of_not_lt hle)⟩

theorem swapCalls_perm (h : s.swapCalls a b = .ok s') :
    s'.setup = s.setup ∧ s'.calls.Perm s.calls := by
  obtain ⟨x, hx, h⟩ := bind_eq_ok.1 h
  obtain ⟨y, hy, h⟩ := bind_eq_ok.1 h
  obtain rfl := Except.ok.inj h
  obtain ⟨ha, rfl⟩ := List.getElem?_eq_some_iff.1 (getElem?_of_call hx)
  obtain ⟨hb, rfl⟩ := List.getElem?_eq_some_iff.1 (getElem?_of_call hy)
  exact ⟨rfl, List.set_set_perm ha hb⟩

end Scenario

/-! ## Revisions -/

/-- What an edit makes of a scenario that may hold so many actions. -/
inductive Revision (c : Catalogue) (size : Nat) (s s' : Scenario) : Prop
  /-- No call comes or goes. -/
  | kept (h : s'.outlines.Perm s.outlines)
  | removed (old : List Action) (h : s.outlines.Perm (old :: s'.outlines)) (hrest : s'.outlines ≠ [])
  /-- A call comes in the place of another. -/
  | replaced (old new : List Action) (others : List (List Action))
    (h : s.outlines.Perm (old :: others)) (h' : s'.outlines.Perm (new :: others))
    (hfits : FitOutline c (max (size - s.size + old.length) 1) new)
  | added (new : List Action) (h : s'.outlines.Perm (new :: s.outlines))
    (hfits : FitOutline c (size - s.size) new)

namespace Revision

variable {c : Catalogue} {size position : Nat} {s s' s'' : Scenario} {old new : Call}

theorem congr (h : Revision c size s s') (houtlines : s''.outlines = s'.outlines) :
    Revision c size s s'' := by
  cases h with
  | kept h => exact .kept (houtlines ▸ h)
  | removed old h hrest => exact .removed old (houtlines ▸ h) (houtlines ▸ hrest)
  | replaced old new others h h' hfits => exact .replaced old new others h (houtlines ▸ h') hfits
  | added new h hfits => exact .added new (houtlines ▸ h) hfits

theorem of_removeCall (hlength : 2 ≤ s.length) (h : s.removeCall position = .ok s') :
    Revision c size s s' := by
  obtain ⟨old, hperm⟩ := Scenario.perm_of_removeCall h
  refine .removed old.outline hperm fun hempty => ?_
  have hone := hperm.length_eq
  rw [hempty, List.length_singleton] at hone
  have hcalls : s.outlines.length = s.length := List.length_map _
  omega

theorem of_replaceCall (hold : s.call position = .ok old)
    (hfits : FitOutline c (max (size - s.size + old.length) 1) new.outline)
    (h : s.replaceCall position (new.bindAt s position) = .ok s') : Revision c size s s' := by
  have hperm := (Scenario.replaceCall_perm hold h).2.map Call.outline
  rw [List.map_cons, Call.outline_of_frame Call.frame_bindAt] at hperm
  rw [← Call.length_outline] at hfits
  exact .replaced _ _ _ (Scenario.perm_of_call hold) hperm hfits

theorem of_addCall (hfits : FitOutline c (size - s.size) new.outline)
    (h : s.addCall position (new.bindAt s position) = .ok s') : Revision c size s s' := by
  have hperm := (Scenario.addCall_perm h).2.map Call.outline
  rw [List.map_cons, Call.outline_of_frame Call.frame_bindAt] at hperm
  exact .added _ hperm hfits

end Revision

/-! ## Editors at work -/

section Editors

variable (c : Catalogue) (size : Nat) (s : Scenario)

/-- The editor has its engine in use and the scenario in hand. -/
structure Editor.At (ed : Editor) : Prop where
  engine : ed.engine.InUse c size
  scenario_eq : ed.scenario = s

/-- The editor has its engine in use and a revision of the scenario in hand. -/
structure Editor.Revised (ed : Editor) : Prop where
  engine : ed.engine.InUse c size
  revision : Revision c size s ed.scenario

/-- Whatever comes of the computation, it leaves a revision of the scenario that it met. -/
def Edits {α : Type} (x : Editing α) : Prop :=
  Triple (Editor.At c size s) x (fun _ => Editor.Revised c size s) (Editor.Revised c size s)

end Editors

variable {c : Catalogue} {size : Nat} {s : Scenario} {α β : Type}

theorem Editor.At.revised {ed : Editor} (h : ed.At c size s) : ed.Revised c size s :=
  ⟨h.engine, .kept (h.scenario_eq ▸ List.Perm.refl _)⟩

namespace Edits

theorem pure {a : α} : Edits c size s (Pure.pure a : Editing α) :=
  triple_pure fun _ h => h.revised

/-- Steps that leave the scenario as it is may come first. -/
theorem bind {x : Editing α} {f : α → Editing β} {P : α → Prop}
    (hx : Ensures (Editor.At c size s) x P) (hf : ∀ a, P a → Edits c size s (f a)) :
    Edits c size s (x >>= f) := by
  have weakened : Triple (Editor.At c size s) x (fun a ed => ed.At c size s ∧ P a)
      (Editor.Revised c size s) := by
    intro ed hed
    obtain ⟨hok, herror⟩ := hx ed hed
    exact ⟨hok, fun e he => (herror e he).revised⟩
  exact triple_bind weakened fun a ed h => hf a h.2 ed h.1

/-- Results may be wrapped up afterwards. -/
theorem bind_pure {x : Editing α} {g : α → β} (hx : Edits c size s x) :
    Edits c size s (x >>= fun a => Pure.pure (g a)) :=
  triple_bind hx fun _ => triple_pure fun _ h => h

end Edits

namespace Editing

theorem ensures_compose {x : Composing α} {P : α → Prop}
    (h : Ensures (Engine.InUse c size) x P) : Ensures (Editor.At c size s) (compose x) P := by
  intro ed hed
  obtain ⟨hok, herror⟩ := h ed.engine hed.engine
  refine ⟨fun a ha => ?_, fun e he => ⟨herror e he, hed.scenario_eq⟩⟩
  obtain ⟨hengine, hP⟩ := hok a ha
  exact ⟨⟨hengine, hed.scenario_eq⟩, hP⟩

theorem ensures_scenario : Ensures (Editor.At c size s) scenario fun met => met = s :=
  ensures_bind ensures_get fun _ hed => ensures_pure hed.scenario_eq

theorem edits_revise {change : Scenario → Except Error Scenario}
    (h : ∀ s', change s = .ok s' → Revision c size s s') : Edits c size s (revise change) := by
  intro ed hed
  obtain ⟨hengine, rfl⟩ := hed
  show (∀ a, (revise change ed).1 = .ok a → Editor.Revised c size _ (revise change ed).2) ∧
    ∀ e, (revise change ed).1 = .error e → Editor.Revised c size _ (revise change ed).2
  unfold revise
  cases hchange : change ed.scenario with
  | ok s' => exact ⟨fun _ _ => ⟨hengine, h s' hchange⟩, fun _ he => nomatch he⟩
  | error e => exact ⟨fun _ ha => (nomatch ha), fun _ _ => Editor.At.revised ⟨hengine, rfl⟩⟩

/-! ## The edits -/

theorem edits_delete : Edits c size s delete := by
  refine .bind ensures_scenario fun met hmet => ?_
  subst hmet
  split
  · exact .pure
  · rename_i hlength
    refine .bind (ensures_compose Composing.ensures_draw) fun chosen _ => ?_
    cases chosen with
    | none => exact .pure
    | some position =>
      exact .bind_pure (edits_revise fun s' => .of_removeCall (Nat.le_of_not_lt hlength))

theorem edits_swap : Edits c size s swap := by
  refine .bind ensures_scenario fun met hmet => ?_
  subst hmet
  split
  · exact .pure
  · refine .bind (ensures_compose Composing.ensures_draw) fun chosen _ => ?_
    exact .bind_pure (edits_revise fun s' h => .kept ((Scenario.swapCalls_perm h).2.map Call.outline))

theorem ensures_choosePosition :
    Ensures (Engine.InUse c size) (choosePosition s) fun _ => True := by
  unfold choosePosition
  split
  · exact ensures_pure trivial
  · exact ensures_map Composing.ensures_draw fun _ _ => trivial

theorem edits_replace : Edits c size s replace := by
  refine .bind ensures_scenario fun met hmet => ?_
  subst hmet
  refine .bind (ensures_compose ensures_choosePosition) fun position _ => ?_
  cases position with
  | none => exact .pure
  | some position =>
    refine .bind ensures_liftExcept fun old hold => .bind ensures_get fun ed hed => ?_
    refine .bind (ensures_compose Composing.ensures_draw) fun key _ => ?_
    cases key with
    | none => exact .pure
    | some key =>
      refine .bind (ensures_compose Composing.fits_sampleAnyCall) fun sampled hsampled => ?_
      cases sampled with
      | none => exact .pure
      | some new =>
        rw [fitResult_some, hed.engine.remainingBudget_eq] at hsampled
        exact .bind_pure (edits_revise fun s' =>
          .of_replaceCall hold (hsampled.mono (Nat.le_max_left _ _)))

theorem edits_modify : Edits c size s modify := by
  refine .bind ensures_scenario fun met hmet => ?_
  subst hmet
  refine .bind (ensures_compose ensures_choosePosition) fun position _ => ?_
  cases position with
  | none => exact .pure
  | some position =>
    refine .bind ensures_liftExcept fun old hold => .bind ensures_get fun ed hed => ?_
    refine .bind (ensures_compose fits_resample) fun new hfits => ?_
    refine .bind (ensures_compose Composing.ensures_seedCall) fun seeded hseeded => ?_
    rw [hed.engine.remainingBudget_eq, ← hseeded] at hfits
    exact .bind_pure (edits_revise fun s' => .of_replaceCall hold hfits)

theorem edits_add {heuristics : Float} : Edits c size s (add heuristics) := by
  refine .bind ensures_scenario fun met hmet => ?_
  subst hmet
  refine .bind (ensures_compose fits_proposeCall) fun proposed hproposed => ?_
  cases proposed with
  | none => exact .pure
  | some new => exact .bind_pure (edits_revise fun s' => .of_addCall (fitResult_some.1 hproposed))

end Editing

/-! ## Requests -/

namespace Mutator

variable {m : Mutator}

theorem edits_perform {edit : Edit} : Edits c size s (m.perform edit) := by
  cases edit with
  | add => exact Editing.edits_add.bind_pure
  | delete => exact Editing.edits_delete.bind_pure
  | swap => exact Editing.edits_swap.bind_pure
  | replace => exact Editing.edits_replace.bind_pure
  | modify => exact Editing.edits_modify.bind_pure

theorem edits_apply {edit : Edit} : Edits c size s (m.apply edit) := by
  refine .bind ensures_get fun ed _ => ?_
  split
  · refine triple_bind edits_perform fun performed => ?_
    cases performed with
    | none => exact triple_pure fun _ h => h
    | some positions =>
      -- the repair meets a revision and leaves one
      have repaired : Triple (Editor.Revised c size s) (Editing.revise fun s => .ok s.repair)
          (fun _ => Editor.Revised c size s) (Editor.Revised c size s) :=
        fun ed h => ⟨fun _ _ => ⟨h.engine, h.revision.congr Scenario.outlines_repair⟩,
          fun _ he => nomatch he⟩
      exact triple_bind repaired fun _ => triple_pure fun _ h => h
  · exact .pure

/-- **A request leaves a revision of the scenario that it met**, whatever comes of it. -/
theorem edits_serve {request : Request} : Edits c size s (m.serve request) := by
  cases request with
  | edit edit => exact edits_apply
  | any =>
    refine .bind ensures_get fun ed _ => ?_
    refine .bind (Editing.ensures_compose Composing.ensures_draw) fun chosen _ => ?_
    cases chosen with
    | none => exact .pure
    | some edit => exact edits_apply

theorem revised_serve {ed : Editor} {request : Request} (h : ed.engine.InUse c size) :
    ((m.serve request).run ed).2.Revised c size ed.scenario := by
  have edits : Edits c size ed.scenario (m.serve request) := edits_serve
  exact edits.run (fun _ _ hrevised => hrevised) (fun _ hrevised => hrevised) ⟨h, rfl⟩

end Mutator

end RestScenario
