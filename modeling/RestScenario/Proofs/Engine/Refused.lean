import RestScenario.Proofs.Engine.Numbering

/-!
# Refused requests

A mutator looks for what to edit, and lets the engine work, before it changes anything; a change of the
scenario that is not refused is followed by the result at once. So a request that fails or does not
apply leaves the scenario as it was, and all that may be gone are random words, counts of templates and
row numbers (`Spares`, `Mutator.spares_serve`). To a scenario of an outside sampler no edit applies, so
no run changes it (`refused_requests_leave_no_trace`).
-/

namespace RestScenario

section Editors

variable (e : Engine) (s : Scenario)

/-- The engine has gone forward, and the scenario is in hand. -/
structure Editor.Keeps (ed : Editor) : Prop where
  engine : e.Advances ed.engine
  scenario_eq : ed.scenario = s

/-- Whatever comes of the computation, the engine goes forward, and only with a result that counts as
done may it leave another scenario. -/
def Spares {α : Type} (x : Editing α) (done : α → Bool) : Prop :=
  Triple (Editor.Keeps e s) x
    (fun a ed => e.Advances ed.engine ∧ (done a = false → ed.scenario = s)) (Editor.Keeps e s)

end Editors

variable {e : Engine} {s : Scenario} {α β : Type} {x : Editing α} {done : α → Bool}

namespace Spares

theorem pure {a : α} : Spares e s (Pure.pure a : Editing α) done :=
  triple_pure fun _ h => ⟨h.engine, fun _ => h.scenario_eq⟩

/-- Steps that leave the scenario as it is may come first. -/
theorem bind {f : α → Editing β} {P : α → Prop} {done' : β → Bool}
    (hx : Ensures (Editor.Keeps e s) x P) (hf : ∀ a, P a → Spares e s (f a) done') :
    Spares e s (x >>= f) done' :=
  triple_bind hx fun a ed h => hf a h.2 ed h.1

/-- Results may be wrapped up afterwards. -/
theorem bind_pure {g : α → β} {done' : β → Bool} (hx : Spares e s x done)
    (hg : ∀ a, done a = true → done' (g a) = true) :
    Spares e s (x >>= fun a => Pure.pure (g a)) done' := by
  refine triple_bind hx fun a => triple_pure fun ed h => ⟨h.1, fun hrefused => h.2 ?_⟩
  by_contra hdone
  have hdone := hg a (by simpa using hdone)
  rw [hrefused] at hdone
  cases hdone

/-- The engine has gone forward, whatever came of the computation. -/
theorem advances (ed : Editor) (h : Spares ed.engine ed.scenario x done) :
    ed.engine.Advances (x.run ed).2.engine :=
  h.run (fun _ _ hspared => hspared.1) (fun _ hkept => hkept.engine) ⟨.refl, rfl⟩

end Spares

namespace Editing

theorem keeps_compose {x : Composing α} {made : α → List RowAction} (h : x.Numbers made) :
    Ensures (Editor.Keeps e s) (compose x) fun _ => True := by
  intro ed hed
  obtain ⟨hok, herror⟩ := h ed.engine ed.engine rfl
  exact ⟨fun a ha => ⟨⟨hed.engine.trans (hok a ha).toAdvances, hed.scenario_eq⟩, trivial⟩,
    fun failure hfailure => ⟨hed.engine.trans (herror failure hfailure), hed.scenario_eq⟩⟩

theorem keeps_scenario : Ensures (Editor.Keeps e s) scenario fun _ => True :=
  ensures_bind ensures_get fun _ _ => ensures_pure trivial

/-- A change that is refused is not made. -/
theorem spares_revise {change : Scenario → Except Error Scenario} :
    Spares e s (revise change) fun _ => true := by
  intro ed hed
  show (∀ a, (revise change ed).1 = .ok a → e.Advances (revise change ed).2.engine ∧ _) ∧
    ∀ failure, (revise change ed).1 = .error failure → Editor.Keeps e s (revise change ed).2
  unfold revise
  cases change ed.scenario with
  | ok s' => exact ⟨fun _ _ => ⟨hed.engine, fun h => nomatch h⟩, fun _ he => nomatch he⟩
  | error failure => exact ⟨fun _ ha => (nomatch ha), fun _ _ => hed⟩

theorem spares_revise_return {change : Scenario → Except Error Scenario} {a : α} :
    Spares e s (do revise change; return some a : Editing (Option α)) Option.isSome :=
  spares_revise.bind_pure fun _ _ => rfl

/-! ## The edits -/

theorem spares_delete : Spares e s delete Option.isSome := by
  refine .bind keeps_scenario fun met _ => ?_
  split
  · exact .pure
  · refine .bind (keeps_compose Composing.numbers_draw) fun chosen _ => ?_
    cases chosen with
    | none => exact .pure
    | some position => exact spares_revise_return

theorem spares_swap : Spares e s swap Option.isSome := by
  refine .bind keeps_scenario fun met _ => ?_
  split
  · exact .pure
  · exact .bind (keeps_compose Composing.numbers_draw) fun places _ => spares_revise_return

theorem spares_replace : Spares e s replace Option.isSome := by
  refine .bind keeps_scenario fun met _ => ?_
  refine .bind (keeps_compose numbers_choosePosition) fun chosen _ => ?_
  cases chosen with
  | none => exact .pure
  | some position =>
    refine .bind ensures_liftExcept fun old _ => .bind ensures_get fun ed _ => ?_
    refine .bind (keeps_compose Composing.numbers_draw) fun key _ => ?_
    cases key with
    | none => exact .pure
    | some key =>
      refine .bind (keeps_compose Composing.numbers_sampleAnyCall) fun sampled _ => ?_
      cases sampled with
      | none => exact .pure
      | some new => exact spares_revise_return

theorem spares_modify : Spares e s modify Option.isSome := by
  refine .bind keeps_scenario fun met _ => ?_
  refine .bind (keeps_compose numbers_choosePosition) fun chosen _ => ?_
  cases chosen with
  | none => exact .pure
  | some position =>
    refine .bind ensures_liftExcept fun old _ => .bind ensures_get fun ed _ => ?_
    refine .bind (keeps_compose numbers_resample) fun new _ => ?_
    exact .bind (keeps_compose Composing.advances_seedCall) fun seeded _ => spares_revise_return

theorem spares_add {heuristics : Float} : Spares e s (add heuristics) Option.isSome := by
  refine .bind keeps_scenario fun met _ => ?_
  refine .bind (keeps_compose numbers_proposeCall) fun proposed _ => ?_
  cases proposed with
  | none => exact .pure
  | some new => exact spares_revise_return

end Editing

/-! ## Requests -/

namespace Mutator

variable {m : Mutator}

theorem spares_perform {edit : Edit} : Spares e s (m.perform edit) Option.isSome := by
  cases edit with
  | add => exact Editing.spares_add.bind_pure (by simp)
  | delete => exact Editing.spares_delete.bind_pure (by simp)
  | swap => exact Editing.spares_swap.bind_pure (by simp)
  | replace => exact Editing.spares_replace.bind_pure (by simp)
  | modify => exact Editing.spares_modify.bind_pure (by simp)

theorem spares_apply {edit : Edit} : Spares e s (m.apply edit) Outcome.isApplied := by
  refine .bind ensures_get fun ed _ => ?_
  split
  · refine triple_bind spares_perform fun performed => ?_
    cases performed with
    | none => exact triple_pure fun _ h => ⟨h.1, fun _ => h.2 rfl⟩
    | some positions =>
      -- the repair of an edited scenario cannot fail
      have repaired : Triple (fun ed : Editor => e.Advances ed.engine)
          (Editing.revise fun s => .ok s.repair) (fun _ ed => e.Advances ed.engine)
          (Editor.Keeps e s) :=
        fun ed h => ⟨fun _ _ => h, fun _ he => nomatch he⟩
      refine triple_bind (fun ed h => repaired ed h.1) fun _ => triple_pure fun _ h => ⟨h, ?_⟩
      exact fun hrefused => nomatch hrefused
  · exact .pure

/-- **A request spares the scenario**, unless an edit is applied. -/
theorem spares_serve {request : Request} : Spares e s (m.serve request) Outcome.isApplied := by
  cases request with
  | edit edit => exact spares_apply
  | any =>
    refine .bind ensures_get fun ed _ => ?_
    refine .bind (Editing.keeps_compose Composing.numbers_draw) fun chosen _ => ?_
    cases chosen with
    | none => exact .pure
    | some edit => exact spares_apply

theorem scenario_of_not_applied {request : Request} {ed : Editor}
    (h : ∀ edit positions, ((m.serve request).run ed).1 ≠ .ok (.applied edit positions)) :
    ((m.serve request).run ed).2.scenario = ed.scenario := by
  have spared : Spares ed.engine ed.scenario (m.serve request) _ := spares_serve
  obtain ⟨hok, herror⟩ := spared ed ⟨.refl, rfl⟩
  cases hanswer : ((m.serve request).run ed).1 with
  | ok outcome =>
    refine (hok outcome hanswer).2 ?_
    cases outcome with
    | applied edit positions => exact absurd hanswer (h edit positions)
    | notApplicable reason => rfl
  | error failure => exact (herror failure hanswer).scenario_eq

/-- An edit is applied, or the scenario stays. -/
theorem applied_or_kept (m : Mutator) (request : Request) (ed : Editor) :
    (∃ edit positions, Gives (m.serve request) ed (.applied edit positions)
      ((m.serve request).run ed).2) ∨ ((m.serve request).run ed).2.scenario = ed.scenario := by
  by_cases h : ∃ edit positions, ((m.serve request).run ed).1 = .ok (.applied edit positions)
  · obtain ⟨edit, positions, happlied⟩ := h
    exact .inl ⟨edit, positions, Prod.ext happlied rfl⟩
  · exact .inr (scenario_of_not_applied fun edit positions happlied => h ⟨edit, positions, happlied⟩)

end Mutator

/-! ## Scenarios of an outside sampler -/

/-- A scenario of an outside sampler is in hand. -/
def Editor.IsSealed (s : Scenario) (ed : Editor) : Prop := ed.scenario = s ∧ s.origin = .smart

namespace Mutator

variable {m : Mutator} {ed : Editor}

/-- To a scenario of an outside sampler no edit applies. -/
theorem applies_of_smart {edit : Edit} (h : s.origin = .smart) : m.applies e s edit = false := by
  simp [applies, h, Origin.isEditable]

theorem refuses_apply {edit : Edit} :
    Succeeds (Editor.IsSealed s) (m.apply edit) fun outcome =>
      ∃ reason, outcome = .notApplicable reason := by
  refine succeeds_bind succeeds_get fun ed hed => ?_
  obtain ⟨rfl, hsmart⟩ := hed
  rw [applies_of_smart hsmart]
  exact succeeds_pure ⟨_, rfl⟩

/-- Every request on a scenario of an outside sampler is refused. -/
theorem refuses_serve {request : Request} :
    Succeeds (Editor.IsSealed s) (m.serve request) fun outcome =>
      ∃ reason, outcome = .notApplicable reason := by
  cases request with
  | edit edit => exact refuses_apply
  | any =>
    refine succeeds_bind succeeds_get fun ed hed => ?_
    obtain ⟨rfl, hsmart⟩ := hed
    have hnone : m.applicableKinds ed.engine ed.scenario = [] :=
      List.filter_eq_nil_iff.2 fun edit _ => by simp [applies_of_smart hsmart]
    rw [hnone]
    have drawn : Succeeds (Editor.IsSealed ed.scenario)
        (Editing.compose (.draw (Random.choose ([] : List Edit)))) (· = none) :=
      fun ed' hed' => ⟨fun _ ha => ⟨hed', (Except.ok.inj ha).symm⟩, fun _ he => nomatch he⟩
    refine succeeds_bind drawn fun chosen hchosen => ?_
    subst hchosen
    exact succeeds_pure ⟨_, rfl⟩

end Mutator

/-- **Refused requests leave no trace** in a scenario. Take any engine, any mutator with any chances,
any scenario and any random words. If a request, for an edit of one kind or of any, fails or is found
not to apply, then the scenario afterwards is the one from before, with its calls, their rows, its
origin and its setup. On a scenario of an outside sampler every request of every run is refused, so no
run changes it. -/
theorem refused_requests_leave_no_trace :
    (∀ (m : Mutator) (request : Request) (ed : Editor),
      (∀ edit positions, ((m.serve request).run ed).1 ≠ .ok (.applied edit positions)) →
        ((m.serve request).run ed).2.scenario = ed.scenario) ∧
    ∀ (ed : Editor) (requests : List (Mutator × Request)), ed.scenario.origin = .smart →
      ∀ answer ∈ Mutator.serveAll ed requests,
        (∃ reason, answer.1 = .ok (.notApplicable reason)) ∧ answer.2.scenario = ed.scenario := by
  refine ⟨fun m request ed => Mutator.scenario_of_not_applied, fun ed requests hsmart => ?_⟩
  refine Mutator.forall_mem_serveAll_of_kept (I := Editor.IsSealed ed.scenario) ?_ requests
    ⟨rfl, hsmart⟩
  intro m request met hmet
  have refused : Succeeds (Editor.IsSealed ed.scenario) (m.serve request) _ := Mutator.refuses_serve
  obtain ⟨outcome, ed', hserved, hsealed, reason, rfl⟩ := refused.exists_gives hmet
  have hrun : (m.serve request).run met = (.ok (.notApplicable reason), ed') := hserved
  rw [hrun]
  exact ⟨⟨⟨reason, rfl⟩, hsealed.1⟩, hsealed⟩

namespace Sample

/-- A listing of users that must stay. -/
def keptListing : Call := { listing [order] with deletable := false }

/-- A call on a resource that the engine does not know. -/
def foreign : Editor :=
  ⟨engine, .ofCalls [{ keptListing with subject := .ofAction "/items" listUsers }] .random⟩

/-- Calls that must stay. -/
def kept (origin : Origin) : Editor := ⟨engine, .ofCalls [keptListing, keptListing] origin⟩

/-- The mutator of the standard settings. -/
def standard : Mutator := .ofSettings .standard

end Sample

open Sample in
/-- The sampling of a call on an unknown resource fails, no call is found to delete where all must
stay, and nothing is done to the scenario of an outside sampler. -/
theorem foreign_and_kept_calls_untouched :
    ((standard.serve (.edit .modify)).run foreign).1 = .error (.unknownResource "/items") ∧
    ((standard.serve (.edit .modify)).run foreign).2.scenario = foreign.scenario ∧
    ((standard.serve (.edit .delete)).run (kept .random)).1 =
      .ok (.notApplicable (.noCandidate .delete)) ∧
    ((standard.serve (.edit .delete)).run (kept .random)).2.scenario = (kept .random).scenario ∧
    ∀ answer ∈ Mutator.serveAll (kept .smart) [(standard, .any), (standard, .edit .swap)],
      (∃ reason, answer.1 = .ok (.notApplicable reason)) ∧
        answer.2.scenario = (kept .smart).scenario := by
  obtain ⟨spared, sealed⟩ := refused_requests_leave_no_trace
  have failed : ((standard.serve (.edit .modify)).run foreign).1 =
      .error (.unknownResource "/items") := by decide +kernel
  have refused : ((standard.serve (.edit .delete)).run (kept .random)).1 =
      .ok (.notApplicable (.noCandidate .delete)) := by decide +kernel
  refine ⟨failed, spared _ _ _ ?_, refused, spared _ _ _ ?_, sealed _ _ rfl⟩
  · rw [failed]
    exact fun _ _ h => nomatch h
  · rw [refused]
    exact fun _ _ h => by cases h

end RestScenario
