import RestScenario.Engine.Composition
import RestScenario.Engine.Mutation
import RestScenario.Proofs.Computation
import RestScenario.Proofs.Scenario.References

/-!
# Runs of mutators, and what they leave in order

A run serves requests to mutators one after another, each on the scenario that the ones before left.
A request that fails or does not apply is part of the run like any other.

Whatever an applied edit did to the rows of the calls, a repair is its last step; the same holds of
the scenarios that an engine composes. So the references of all these scenarios are in order
(`references_in_order_of_applied_or_composed`).
-/

namespace RestScenario

/-! ## Runs -/

/-- What a mutator is asked for. -/
inductive Request where
  /-- An edit drawn from those that apply. -/
  | any
  | edit (edit : Edit)
deriving DecidableEq

namespace Mutator

/-- Serves one request. -/
def serve (m : Mutator) : Request → Editing Outcome
  | .any => m.mutate
  | .edit edit => m.apply edit

/-- Serves requests one after another; lists what came of each with the editor after it. -/
def serveAll (ed : Editor) : List (Mutator × Request) → List (Except Error Outcome × Editor)
  | [] => []
  | (m, request) :: rest =>
    let answer := (m.serve request).run ed
    answer :: serveAll answer.2 rest

/-- What holds after every request from an editor with `I`, where requests leave `I`, holds all along a
run. -/
theorem forall_mem_serveAll_of_kept {I : Editor → Prop} {P : Except Error Outcome × Editor → Prop}
    (step : ∀ (m : Mutator) (request : Request) (ed : Editor), I ed →
      P ((m.serve request).run ed) ∧ I ((m.serve request).run ed).2)
    (requests : List (Mutator × Request)) {ed : Editor} (hed : I ed) :
    ∀ answer ∈ serveAll ed requests, P answer := by
  induction requests generalizing ed with
  | nil => simp [serveAll]
  | cons r rest ih =>
    obtain ⟨hanswer, hkept⟩ := step r.1 r.2 ed hed
    exact List.forall_mem_cons.2 ⟨hanswer, ih hkept⟩

/-- What holds after every request from any editor holds all along a run. -/
theorem forall_mem_serveAll {P : Except Error Outcome × Editor → Prop}
    (step : ∀ (m : Mutator) (request : Request) (ed : Editor), P ((m.serve request).run ed))
    (requests : List (Mutator × Request)) (ed : Editor) :
    ∀ answer ∈ serveAll ed requests, P answer :=
  forall_mem_serveAll_of_kept (I := fun _ => True)
    (fun m request ed _ => ⟨step m request ed, trivial⟩) requests trivial

/-! ## Every applied edit ends with a repair -/

theorem gives_revise {change : Scenario → Except Error Scenario} {ed ed' : Editor} {u : Unit}
    (h : Gives (Editing.revise change) ed u ed') :
    change ed.scenario = .ok ed'.scenario ∧ ed'.engine = ed.engine := by
  unfold Gives ExceptT.run Editing.revise at h
  split at h
  · rename_i s hs
    obtain ⟨-, rfl⟩ := Prod.mk.inj h
    exact ⟨hs, rfl⟩
  · simp at h

/-- An engine at work leaves the scenario as it is. -/
theorem gives_compose {α : Type} {x : Composing α} {ed ed' : Editor} {a : α}
    (h : Gives (Editing.compose x) ed a ed') :
    Gives x ed.engine a ed'.engine ∧ ed'.scenario = ed.scenario := by
  obtain ⟨hresult, rfl⟩ := Prod.mk.inj h
  exact ⟨Prod.ext hresult rfl, rfl⟩

variable {m : Mutator} {request : Request} {edit k : Edit} {positions : List Nat} {ed ed' : Editor}

/-- An edit that was applied was made, and a repair came after it. -/
theorem performed_of_apply (h : Gives (m.apply edit) ed (.applied k positions) ed') :
    k = edit ∧ ∃ ed₁, Gives (m.perform edit) ed (some positions) ed₁ ∧
      ed'.engine = ed₁.engine ∧ ed'.scenario = ed₁.scenario.repair := by
  unfold apply at h
  obtain ⟨met, ed₁, hmet, h⟩ := gives_bind.1 h
  obtain ⟨rfl, rfl⟩ := gives_get.1 hmet
  split at h
  · obtain ⟨performed, ed₂, hperform, h⟩ := gives_bind.1 h
    cases performed with
    | none => simp at h
    | some places =>
      obtain ⟨_, ed₃, hrevise, h⟩ := gives_bind.1 h
      obtain ⟨happlied, rfl⟩ := gives_pure.1 h
      obtain ⟨rfl, rfl⟩ := Outcome.applied.inj happlied
      obtain ⟨repaired, hengine⟩ := gives_revise hrevise
      exact ⟨rfl, ed₂, hperform, hengine, (Except.ok.inj repaired).symm⟩
  · simp at h

/-- A request that was applied drew for the kind of edit, if none was asked for, and made the edit; a
repair came after it. -/
theorem steps_of_serve (h : Gives (m.serve request) ed (.applied k positions) ed') :
    ∃ ed₁ ed₂, (ed₁ = ed ∨ ∃ kinds, ed₁.scenario = ed.scenario ∧
        Gives (Composing.draw (Random.choose kinds)) ed.engine (some k) ed₁.engine) ∧
      Gives (m.perform k) ed₁ (some positions) ed₂ ∧
      ed'.engine = ed₂.engine ∧ ed'.scenario = ed₂.scenario.repair := by
  cases request with
  | edit edit =>
    obtain ⟨rfl, ed₂, hperform, hrepair⟩ := performed_of_apply h
    exact ⟨ed, ed₂, .inl rfl, hperform, hrepair⟩
  | any =>
    unfold serve mutate at h
    obtain ⟨met, ed₁, hmet, h⟩ := gives_bind.1 h
    obtain ⟨rfl, rfl⟩ := gives_get.1 hmet
    obtain ⟨chosen, ed₂, hchosen, h⟩ := gives_bind.1 h
    cases chosen with
    | none => simp at h
    | some edit =>
      obtain ⟨rfl, ed₃, hperform, hrepair⟩ := performed_of_apply h
      obtain ⟨hdrawn, hscenario⟩ := gives_compose hchosen
      exact ⟨ed₂, ed₃, .inr ⟨_, hscenario, hdrawn⟩, hperform, hrepair⟩

/-- What a request applied was made on the scenario that it met, and a repair came after it. -/
theorem performed_of_serve (h : Gives (m.serve request) ed (.applied k positions) ed') :
    ∃ ed₁ ed₂, ed₁.scenario = ed.scenario ∧ Gives (m.perform k) ed₁ (some positions) ed₂ ∧
      ed'.scenario = ed₂.scenario.repair := by
  obtain ⟨ed₁, ed₂, hdrawn, hperform, -, hrepair⟩ := steps_of_serve h
  refine ⟨ed₁, ed₂, ?_, hperform, hrepair⟩
  rcases hdrawn with rfl | ⟨kinds, hscenario, -⟩
  · rfl
  · exact hscenario

/-- After every applied request of a run the references of the scenario are in order. -/
theorem referencesInOrder_of_mem_serveAll {requests : List (Mutator × Request)}
    (h : (.ok (.applied k positions), ed') ∈ serveAll ed requests) :
    ed'.scenario.referencesInOrder = true := by
  refine forall_mem_serveAll (P := fun answer => ∀ k positions,
    answer.1 = .ok (.applied k positions) → answer.2.scenario.referencesInOrder = true)
    ?_ requests ed _ h k positions rfl
  intro m request ed k positions hanswer
  have served : Gives (m.serve request) ed (.applied k positions) _ := Prod.ext hanswer rfl
  obtain ⟨_, ed₂, -, -, hrepair⟩ := performed_of_serve served
  rw [hrepair]
  exact ed₂.scenario.referencesInOrder_repair

end Mutator

/-! ## So does every composition -/

/-- A repair was the last that was done to the scenario. -/
def Scenario.IsRepaired (s : Scenario) : Prop := ∃ unrepaired : Scenario, unrepaired.repair = s

theorem Scenario.isRepaired_repair (s : Scenario) : s.repair.IsRepaired := ⟨s, rfl⟩

theorem Scenario.IsRepaired.referencesInOrder {s : Scenario} (h : s.IsRepaired) :
    s.referencesInOrder = true := by
  obtain ⟨unrepaired, rfl⟩ := h
  exact unrepaired.referencesInOrder_repair

namespace Composing

variable {auth : Option Auth} {e e' : Engine}

theorem single_scenariosOf {calls : List Call} :
    Always (scenariosOf auth calls) fun scenarios =>
      ∀ s ∈ scenarios, ∃ c, s = (Scenario.ofCalls [c] .smartWithoutDependencies).repair := by
  induction calls with
  | nil => exact ensures_pure (by simp)
  | cons c rest ih =>
    have first : Always (scenarioOf auth c) fun s =>
        ∃ c, s = (Scenario.ofCalls [c] .smartWithoutDependencies).repair :=
      ensures_bind always_any fun seeded _ => ensures_pure ⟨seeded, rfl⟩
    refine ensures_bind first fun s hs => ensures_bind ih fun more hmore => ensures_pure ?_
    exact List.forall_mem_cons.2 ⟨hs, hmore⟩

/-- A scenario for a way to start has one call. -/
theorem single_adHocScenarios :
    Always (adHocScenarios auth) fun scenarios =>
      ∀ s ∈ scenarios, ∃ c, s = (Scenario.ofCalls [c] .smartWithoutDependencies).repair := by
  refine ensures_bind always_any fun _ _ => ensures_bind always_any fun e _ => ?_
  exact ensures_bind always_any fun calls _ => single_scenariosOf

theorem repaired_adHocScenarios :
    Always (adHocScenarios auth) fun scenarios => ∀ s ∈ scenarios, s.IsRepaired :=
  single_adHocScenarios.imp fun _ h s hs =>
    have ⟨_, hsingle⟩ := h s hs
    ⟨_, hsingle.symm⟩

theorem repaired_relatedScenario :
    Always relatedScenario fun result => ∀ s ∈ result, s.IsRepaired := by
  refine ensures_bind always_any fun _ _ => ensures_bind always_any fun e _ => ?_
  refine ensures_bind always_any fun chosen _ => ?_
  cases chosen with
  | none => exact ensures_pure (by simp)
  | some key =>
    refine ensures_bind always_any fun sampled _ => ?_
    cases sampled with
    | none => exact ensures_pure (by simp)
    | some main =>
      refine ensures_bind always_any fun front _ => ensures_pure ?_
      rintro _ ⟨⟩
      exact Scenario.isRepaired_repair _

theorem referencesInOrder_of_adHocScenarios {scenarios : List Scenario}
    (h : Gives (adHocScenarios auth) e scenarios e') :
    ∀ s ∈ scenarios, s.referencesInOrder = true :=
  fun s hs => (repaired_adHocScenarios.of_gives h s hs).referencesInOrder

theorem referencesInOrder_of_relatedScenario {s : Scenario}
    (h : Gives relatedScenario e (some s) e') : s.referencesInOrder = true :=
  (repaired_relatedScenario.of_gives h s rfl).referencesInOrder

end Composing

/-! ## References of mutated and composed scenarios -/

/-- **References are in order after every applied edit and in every composed scenario.** The edits
may start from any scenario, also from one with references to later rows or to none. -/
theorem references_in_order_of_applied_or_composed :
    (∀ (ed ed' : Editor) (requests : List (Mutator × Request)) (edit : Edit) (positions : List Nat),
      (.ok (.applied edit positions), ed') ∈ Mutator.serveAll ed requests →
        ed'.scenario.referencesInOrder = true) ∧
    (∀ (auth : Option Auth) (e e' : Engine) (scenarios : List Scenario),
      Gives (Composing.adHocScenarios auth) e scenarios e' →
        ∀ s ∈ scenarios, s.referencesInOrder = true) ∧
    (∀ (e e' : Engine) (s : Scenario),
      Gives Composing.relatedScenario e (some s) e' → s.referencesInOrder = true) :=
  ⟨fun _ _ _ _ _ => Mutator.referencesInOrder_of_mem_serveAll,
    fun _ _ _ _ => Composing.referencesInOrder_of_adHocScenarios,
    fun _ _ _ => Composing.referencesInOrder_of_relatedScenario⟩

namespace Sample

/-- Listing all users. -/
def listUsers : Action := ⟨.get, ⟨[.literal "users"]⟩, [], false, none, none⟩

/-- A call that lists users after its own row actions. -/
def listing (rows : List RowAction) : Call :=
  { Call.unseeded (.unvisited "GET" true 1) (.ofAction "/users" listUsers) [listUsers] .notExisting
    with rows }

/-- An order of a user who comes later and of an item that is nowhere. -/
def order : RowAction :=
  ⟨2, "orders", .insert, ∅, [⟨["user"], "users", some 1⟩, ⟨["item"], "items", some 7⟩]⟩

/-- An engine that knows how to list users, and that they depend on items. -/
def engine : Engine where
  settings := .standard
  sampler := ⟨((ResourceModel.ofCatalogue ⟨[listUsers]⟩).toOption).getD .empty, ⟨fun _ => 0, 0, 0⟩⟩
  knowledge := (Knowledge.empty 0.6 true).updateDependency "/users" (.singleton "/items") "ADD" 1.0
  nextId := 3
  initialized := true

/-- The order stands before the user that it refers to. -/
def editor : Editor :=
  ⟨engine, .ofCalls [listing [order], listing [⟨1, "users", .insert, ∅, []⟩]] .random⟩

/-- A request for an exchange of the two calls. -/
def exchange : Mutator × Request := (.ofSettings .standard, .edit .swap)

end Sample

open Sample in
theorem references_in_order_after_swap :
    editor.scenario.referencesInOrder = false ∧
    (∃ ed', (.ok (.applied .swap [0, 1]), ed') ∈ Mutator.serveAll editor [exchange] ∧
      ed'.scenario.referencesInOrder = true) ∧
    (∃ s e', Gives (Composing.adHocScenarios none) engine [s] e' ∧ s.referencesInOrder = true) ∧
    ∃ s e', Gives Composing.relatedScenario engine (some s) e' ∧ s.referencesInOrder = true := by
  obtain ⟨applied, adHoc, related⟩ := references_in_order_of_applied_or_composed
  refine ⟨by decide +kernel, ?_, ?_, ?_⟩
  · have swapped : Gives (exchange.1.serve exchange.2) editor (.applied .swap [0, 1]) _ :=
      gives_of_toOption (by decide +kernel)
    have mem : (_, _) ∈ Mutator.serveAll editor [exchange] := List.mem_singleton.2 swapped.symm
    exact ⟨_, mem, applied _ _ _ _ _ mem⟩
  · have one : Gives (Composing.adHocScenarios none) engine [Scenario.ofCalls [listing []]
        .smartWithoutDependencies] _ := gives_of_toOption (by decide +kernel)
    exact ⟨_, _, one, adHoc _ _ _ _ one _ List.mem_cons_self⟩
  · have one : Gives Composing.relatedScenario engine
        (some (.ofCalls [listing []] .smartWithDependencies)) _ :=
      gives_of_toOption (by decide +kernel)
    exact ⟨_, _, one, related _ _ _ one⟩

end RestScenario
