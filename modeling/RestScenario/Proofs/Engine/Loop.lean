import RestScenario.Proofs.Engine.Distinct
import RestScenario.Proofs.Engine.Session
import RestScenario.Proofs.Engine.Settled

/-!
# The closed loop

In the closed loop an engine takes up a catalogue, makes scenarios, edits those that it made and learns
from them, in any order (`ClosedLoop`). What it learns of edits is how a scenario fared that one edit
made of another.

**Why resources stay different.** A call comes in on a resource that is used only where this resource
is known to depend on itself, and this is learned only where two calls are on one resource. So neither
comes first, and the two are carried along together (`LoopInvariant`). An edit is seen for what it was
on a scenario that no repair changes. Where no action declares two parameters of one name, bodies apart,
all scenarios of the loop are such (`Scenario.Obtained.settled`).
-/

namespace RestScenario

/-! ## Loops -/

/-- One applied request makes the second scenario of the first, whichever engine serves it. -/
def Scenario.StepsTo (s s' : Scenario) : Prop :=
  ∃ (m : Mutator) (request : Request) (edit : Edit) (positions : List Nat) (ed ed' : Editor),
    Gives (m.serve request) ed (.applied edit positions) ed' ∧ ed.scenario = s ∧ ed'.scenario = s'

/-- The lesson is drawn from scenarios of a pool: what the actions of one of them did to the database,
which rows exist now, or how one fared that one applied request made of another. -/
inductive Lesson.IsObserved (pool : List Scenario) : Lesson → Prop
  | executions {s : Scenario} (hs : s ∈ pool) (executions : SortedMap Nat Execution) :
    IsObserved pool (.executions s.calls executions)
  | snapshot (snapshot : Snapshot) : IsObserved pool (.snapshot snapshot)
  | edit {origin edited : Scenario} (horigin : origin ∈ pool) (hedited : edited ∈ pool)
    (hstep : origin.StepsTo edited) (before after : Fitness) (verdict : Verdict) :
    IsObserved pool (.edit ⟨origin.calls, before⟩ ⟨edited.calls, after⟩ verdict)

/-- The engines with the scenarios that they have produced, from the time when an engine of some
settings took up a catalogue. Requests are to mutators of any settings, and what is asked for may also
fail or not apply. -/
inductive ClosedLoop (settings : Settings) (c : Catalogue) : Engine → List Scenario → Prop
  | opened {new e : Engine} {database : Option Database} (hnew : Engine.ofSettings settings = .ok new)
    (hload : new.load c database = .ok e) : ClosedLoop settings c e []
  | adHoc {e e' : Engine} {pool : List Scenario} {result : Except Error (List Scenario)}
    (auth : Option Auth) (h : ClosedLoop settings c e pool)
    (hrun : (Composing.adHocScenarios auth).run e = (result, e')) :
    ClosedLoop settings c e' (result.toOption.getD [] ++ pool)
  | related {e e' : Engine} {pool : List Scenario} {result : Except Error (Option Scenario)}
    (h : ClosedLoop settings c e pool) (hrun : Composing.relatedScenario.run e = (result, e')) :
    ClosedLoop settings c e' (result.toOption.join.toList ++ pool)
  | mutated {e : Engine} {pool : List Scenario} {s : Scenario} {ed : Editor}
    {result : Except Error Outcome} (m : Mutator) (request : Request)
    (h : ClosedLoop settings c e pool) (hs : s ∈ pool)
    (hrun : (m.serve request).run ⟨e, s⟩ = (result, ed)) :
    ClosedLoop settings c ed.engine (ed.scenario :: pool)
  | learned {e : Engine} {pool : List Scenario} {lesson : Lesson} (h : ClosedLoop settings c e pool)
    (hlesson : lesson.IsObserved pool) :
    ClosedLoop settings c { e with knowledge := e.knowledge.learn lesson } pool

/-! ## What holds all along -/

/-- What holds all along a closed loop: the engine has the model of the catalogue and a budget, no
resource is known to depend on itself, and scenarios are obtained with calls on different resources. -/
structure LoopInvariant (c : Catalogue) (budget : Nat) (e : Engine) (pool : List Scenario) : Prop where
  engine : e.InUse c budget
  knowledge : e.knowledge.OnOthers
  obtained : ∀ s ∈ pool, s.Obtained c
  distinct : ∀ s ∈ pool, s.IsDistinct

variable {settings : Settings} {c : Catalogue} {budget : Nat} {e e' : Engine} {pool : List Scenario}
  {s s' : Scenario}

/-- An applied request on a scenario that no repair changes is an edit of its calls. -/
theorem Scenario.StepsTo.editedTo (h : s.StepsTo s') (hsettled : s.repair = s) :
    Inference.EditedTo s.calls s'.calls := by
  obtain ⟨m, request, edit, positions, ed, ed', hserved, rfl, rfl⟩ := h
  obtain ⟨shown, hshown, hsame⟩ := Mutator.edited_of_applied hsettled hserved
  exact ⟨edit, positions, shown, hshown, hsame⟩

namespace LoopInvariant

theorem opened {new : Engine} {database : Option Database}
    (hnew : Engine.ofSettings settings = .ok new) (hload : new.load c database = .ok e) :
    LoopInvariant c settings.maxTestSize e [] := by
  obtain ⟨_, -, hnew⟩ := bind_eq_ok.1 hnew
  obtain rfl := Except.ok.inj hnew
  refine ⟨Engine.inUse_of_load hload, ?_, by simp, by simp⟩
  obtain ⟨m, -, hload⟩ := bind_eq_ok.1 hload
  obtain rfl := Except.ok.inj hload
  exact Knowledge.outlastsOthers_onOthers.init (Knowledge.onOthers_empty _ _)

/-- An engine goes on that has its model in use and has learned nothing, and new scenarios come in. -/
theorem extend {made : List Scenario} (h : LoopInvariant c budget e pool) (he : e'.InUse c budget)
    (hadvances : e.Advances e') (hmade : ∀ s ∈ made, s.Obtained c ∧ s.IsDistinct) :
    LoopInvariant c budget e' (made ++ pool) where
  engine := he
  knowledge := hadvances.knowledge ▸ h.knowledge
  obtained := List.forall_mem_append.2 ⟨fun s hs => (hmade s hs).1, h.obtained⟩
  distinct := List.forall_mem_append.2 ⟨fun s hs => (hmade s hs).2, h.distinct⟩

variable (h : LoopInvariant c budget e pool)
include h

theorem adHoc {auth : Option Auth} {result : Except Error (List Scenario)}
    (hrun : (Composing.adHocScenarios auth).run e = (result, e')) :
    LoopInvariant c budget e' (result.toOption.getD [] ++ pool) := by
  obtain rfl : ((Composing.adHocScenarios auth).run e).2 = e' := congrArg Prod.snd hrun
  have he : ((Composing.adHocScenarios auth).run e).2.InUse c budget :=
    Composing.sound_adHocScenarios.run h.engine
  have hadvances : e.Advances ((Composing.adHocScenarios auth).run e).2 :=
    Composing.numbers_adHocScenarios.run
  cases result with
  | error failure => exact h.extend he hadvances (List.forall_mem_nil _)
  | ok made =>
    refine h.extend he hadvances fun s hs => ⟨.adHoc budget auth e _ made s h.engine hrun hs, ?_⟩
    exact Composing.isDistinct_adHocScenarios.of_gives hrun s hs

theorem related {result : Except Error (Option Scenario)}
    (hrun : Composing.relatedScenario.run e = (result, e')) :
    LoopInvariant c budget e' (result.toOption.join.toList ++ pool) := by
  obtain rfl : (Composing.relatedScenario.run e).2 = e' := congrArg Prod.snd hrun
  have he := Composing.ensures_relatedScenario.run h.engine
  have hadvances : e.Advances _ := Composing.advances_relatedScenario.run
  match result with
  | .error failure => exact h.extend he hadvances (List.forall_mem_nil _)
  | .ok none => exact h.extend he hadvances (List.forall_mem_nil _)
  | .ok (some s) =>
    refine h.extend he hadvances (List.forall_mem_singleton.2 ?_)
    exact ⟨.related budget e _ s h.engine hrun, Composing.nodup_relatedScenario hrun⟩

theorem mutated {m : Mutator} {request : Request} {ed : Editor} {result : Except Error Outcome}
    (hs : s ∈ pool) (hrun : (m.serve request).run ⟨e, s⟩ = (result, ed)) :
    LoopInvariant c budget ed.engine (ed.scenario :: pool) := by
  obtain rfl : ((m.serve request).run ⟨e, s⟩).2 = ed := congrArg Prod.snd hrun
  have hrevised : ((m.serve request).run ⟨e, s⟩).2.Revised c budget (Editor.mk e s).scenario :=
    Mutator.revised_serve h.engine
  have hspares : Spares e s (m.serve request) _ := Mutator.spares_serve
  have hdistinct : ((m.serve request).run ⟨e, s⟩).2.scenario.IsDistinct :=
    Mutator.isDistinct_serve h.knowledge (h.distinct s hs)
  have hobtained := Scenario.Obtained.mutated budget ⟨e, s⟩ m request (h.obtained s hs) h.engine
  exact h.extend hrevised.engine (hspares.advances ⟨e, s⟩)
    (List.forall_mem_singleton.2 ⟨hobtained, hdistinct⟩)

/-- A lesson from the loop is about different resources. -/
theorem isOnOthers {lesson : Lesson} (hc : c.NamesApart) (hlesson : lesson.IsObserved pool) :
    lesson.IsOnOthers := by
  cases hlesson with
  | executions hs executions => trivial
  | snapshot snapshot => trivial
  | edit horigin hedited hstep before after verdict =>
    have hsettled := (h.obtained _ horigin).settled hc
    exact ⟨h.distinct _ horigin, h.distinct _ hedited, hstep.editedTo hsettled⟩

theorem learned {lesson : Lesson} (hc : c.NamesApart) (hlesson : lesson.IsObserved pool) :
    LoopInvariant c budget { e with knowledge := e.knowledge.learn lesson } pool where
  engine := ⟨h.engine.sampler, h.engine.budget_eq⟩
  knowledge := h.knowledge.learn (h.isOnOthers hc hlesson)
  obtained := h.obtained
  distinct := h.distinct

end LoopInvariant

theorem ClosedLoop.invariant (h : ClosedLoop settings c e pool) (hc : c.NamesApart) :
    LoopInvariant c settings.maxTestSize e pool := by
  induction h with
  | opened hnew hload => exact .opened hnew hload
  | adHoc auth _ hrun ih => exact ih.adHoc hrun
  | related _ hrun ih => exact ih.related hrun
  | mutated m request _ hs hrun ih => exact ih.mutated hs hrun
  | learned _ hlesson ih => exact ih.learned hc hlesson

/-- **The closed loop keeps resources distinct.** Take any accepted settings and seed, any catalogue in
which no action declares two parameters of one name, bodies apart, and any database. However requests
for scenarios, edits of those that were produced and lessons from them follow each other, no two calls
of a produced scenario are on one resource, and no resource is among the targets of its relations. -/
theorem closed_loop_keeps_resources_distinct (hc : c.NamesApart)
    (h : ClosedLoop settings c e pool) :
    (∀ s ∈ pool, (s.calls.map Call.resource).Nodup) ∧
      ∀ source, ∀ r ∈ e.knowledge.relationsOf source, source ∉ r.targets := by
  have invariant := h.invariant hc
  exact ⟨invariant.distinct, fun source r hr => invariant.knowledge.not_mem_targets hr⟩

namespace Sample

/-- Placing an order, whose body is named like the users, perhaps with a note. -/
def placeOrder : Action where
  verb := .post
  path := ⟨[.literal "orders"]⟩
  params := [⟨"order", .body (some "users") [], .text, true, none, .null⟩,
    ⟨"note", .query, .text, false, none, .null⟩]
  savesLocation := false
  locationId := none
  auth := none

/-- Users are created, and orders are placed. -/
def counter : Catalogue := ⟨[createUser, placeOrder]⟩

/-- The engine that took up the catalogue, without a database. -/
def cashier : Engine := ((newcomer.load counter none).toOption).getD idle

/-- What the engine composes: a user, and an order after that. -/
def sale : Scenario := (Composing.relatedScenario.run cashier).1.toOption.join.getD listed

/-- A request for an exchange of the calls, after the scenario was composed. -/
def returning : Except Error Outcome × Editor :=
  ((Mutator.ofSettings .standard).serve (.edit .swap)).run
    ⟨(Composing.relatedScenario.run cashier).2, sale⟩

/-- With the order in front, a target is reached by the other action, and better. -/
def returnedBetter : Lesson :=
  .edit ⟨sale.calls, Fitness.empty.record 0 0.25 0⟩
    ⟨returning.2.scenario.calls, Fitness.empty.record 0 0.5 1⟩ .better

end Sample

open Sample in
/-- Orders depend on users, as names tell, and an exchange shows that users depend on orders as well. -/
theorem sale_and_return_on_different_resources :
    ∃ e : Engine, counter.NamesApart ∧
      ClosedLoop .standard counter e [returning.2.scenario, sale] ∧
      e.knowledge.keysWithDependencies = ["/orders", "/users"] ∧
      (∀ s ∈ [returning.2.scenario, sale], (s.calls.map Call.resource).Nodup) ∧
      ∀ source, ∀ r ∈ e.knowledge.relationsOf source, source ∉ r.targets := by
  have hnew : Engine.ofSettings .standard = .ok newcomer :=
    eq_ok_of_isSome_toOption idle (by decide +kernel)
  have hload : newcomer.load counter none = .ok cashier :=
    eq_ok_of_isSome_toOption idle (by decide +kernel)
  -- the three runs have one load in common, which is evaluated for all of them
  have evaluated : (Composing.relatedScenario.run cashier).1.toOption.join.isSome = true ∧
      returning.1.toOption = some (.applied .swap [0, 1]) ∧
      (returning.2.engine.knowledge.learn returnedBetter).keysWithDependencies =
        ["/orders", "/users"] := by decide +kernel
  obtain ⟨hsale, hreturning, hkeys⟩ := evaluated
  obtain ⟨s, hs⟩ := Option.isSome_iff_exists.1 hsale
  obtain rfl : sale = s := congrArg (·.getD listed) hs
  have made : Gives Composing.relatedScenario cashier (some sale) _ :=
    gives_of_toOption (Option.join_eq_some_iff.1 hs)
  have composed : ClosedLoop .standard counter _ [sale] := (ClosedLoop.opened hnew hload).related made
  have served : Gives ((Mutator.ofSettings .standard).serve (.edit .swap)) ⟨_, sale⟩
      (.applied .swap [0, 1]) returning.2 := gives_of_toOption hreturning
  have edited : ClosedLoop .standard counter returning.2.engine [returning.2.scenario, sale] :=
    composed.mutated _ _ (List.mem_singleton_self _) served
  have hsteps : sale.StepsTo returning.2.scenario :=
    ⟨_, _, _, _, _, _, served, by dsimp only, rfl⟩
  have observed : returnedBetter.IsObserved [returning.2.scenario, sale] := by
    unfold returnedBetter
    exact .edit (List.mem_cons_of_mem _ (List.mem_singleton_self _)) List.mem_cons_self hsteps ..
  have hc : counter.NamesApart := by decide +kernel
  have learned := edited.learned observed
  obtain ⟨distinct, other⟩ := closed_loop_keeps_resources_distinct hc learned
  exact ⟨_, hc, learned, by dsimp only; exact hkeys, distinct, other⟩

end RestScenario
