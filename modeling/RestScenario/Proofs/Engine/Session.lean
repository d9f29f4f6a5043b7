import RestScenario.Proofs.Engine.Served

/-!
# Sessions

In a session an engine takes up a catalogue, makes scenarios, edits those that it made and learns
from how they fared, in any order (`Session`). All along the engine is ready, and the calls of all
scenarios are on resources of the catalogue (`Session.ready`). So no request of a session fails
(`session_requests_succeed`).
-/

namespace RestScenario

/-- The lesson is drawn from scenarios of a pool: what the actions of one of them did to the database,
how one fared that was made from another, or which rows exist now. -/
inductive Lesson.IsDrawn (pool : List Scenario) : Lesson → Prop
  | executions {s : Scenario} (hs : s ∈ pool) (executions : SortedMap Nat Execution) :
    IsDrawn pool (.executions s.calls executions)
  | snapshot (snapshot : Snapshot) : IsDrawn pool (.snapshot snapshot)
  | edit {origin edited : Scenario} (horigin : origin ∈ pool) (hedited : edited ∈ pool)
    (before after : Fitness) (verdict : Verdict) :
    IsDrawn pool (.edit ⟨origin.calls, before⟩ ⟨edited.calls, after⟩ verdict)

/-- The engines with the scenarios that they have produced, from the time when an engine of some
settings took up a catalogue. An edited scenario is produced beside the one that it was made from. -/
inductive Session (settings : Settings) (c : Catalogue) : Engine → List Scenario → Prop
  | opened {new e : Engine} {database : Option Database} (hnew : Engine.ofSettings settings = .ok new)
    (hload : new.load c database = .ok e) : Session settings c e []
  | adHoc {e e' : Engine} {pool made : List Scenario} {auth : Option Auth}
    (h : Session settings c e pool) (hmade : Gives (Composing.adHocScenarios auth) e made e') :
    Session settings c e' (made ++ pool)
  | related {e e' : Engine} {pool : List Scenario} {made : Option Scenario}
    (h : Session settings c e pool) (hmade : Gives Composing.relatedScenario e made e') :
    Session settings c e' (made.toList ++ pool)
  | edited {e : Engine} {pool : List Scenario} {s : Scenario} {request : Request} {outcome : Outcome}
    {ed : Editor} (h : Session settings c e pool) (hs : s ∈ pool)
    (hserved : Gives ((Mutator.ofSettings settings).serve request) ⟨e, s⟩ outcome ed) :
    Session settings c ed.engine (ed.scenario :: pool)
  | learned {e : Engine} {pool : List Scenario} {lesson : Lesson} (h : Session settings c e pool)
    (hlesson : lesson.IsDrawn pool) :
    Session settings c { e with knowledge := e.knowledge.learn lesson } pool

variable {settings : Settings} {c : Catalogue} {e : Engine} {pool : List Scenario}

/-- Any settings and any catalogue that are accepted open a session. -/
theorem Session.exists_opened (hsettings : settings.validate = .ok ()) (hc : c.validate = .ok ())
    (database : Option Database) : ∃ e, Session settings c e [] := by
  have hmodel : ∃ m, ResourceModel.ofCatalogue c = .ok m := ⟨_, bind_eq_ok.2 ⟨(), hc, rfl⟩⟩
  have hnew : ∃ new, Engine.ofSettings settings = .ok new :=
    ⟨_, bind_eq_ok.2 ⟨(), hsettings, rfl⟩⟩
  obtain ⟨m, hmodel⟩ := hmodel
  obtain ⟨new, hnew⟩ := hnew
  have hload : ∃ e, new.load c database = .ok e := ⟨_, bind_eq_ok.2 ⟨m, hmodel, rfl⟩⟩
  obtain ⟨e, hload⟩ := hload
  exact ⟨e, .opened hnew hload⟩

/-- A lesson from scenarios on known resources speaks of known resources. -/
theorem Lesson.IsDrawn.names {known : String → Prop} {lesson : Lesson} (h : lesson.IsDrawn pool)
    (hpool : ∀ s ∈ pool, s.Within known) : lesson.Names known := by
  cases h with
  | executions hs executions => exact Scenario.within_iff.1 (hpool _ hs)
  | snapshot snapshot => trivial
  | edit horigin hedited before after verdict =>
    exact ⟨Scenario.within_iff.1 (hpool _ horigin), Scenario.within_iff.1 (hpool _ hedited)⟩

/-- **All along a session the engine is ready**, and its scenarios are on resources of the
catalogue. -/
theorem Session.ready (h : Session settings c e pool) :
    e.Ready c ∧ ∀ s ∈ pool, s.Within c.HasResource := by
  induction h with
  | opened hnew hload => exact ⟨Engine.ready_of_load hnew hload, by simp⟩
  | adHoc _ hmade ih =>
    obtain ⟨hready, hpool⟩ := ih
    obtain ⟨hready', hwithin⟩ := Composing.succeeds_adHocScenarios.of_gives hmade hready
    exact ⟨hready', List.forall_mem_append.2 ⟨hwithin, hpool⟩⟩
  | related _ hmade ih =>
    obtain ⟨hready, hpool⟩ := ih
    obtain ⟨hready', hwithin⟩ := Composing.succeeds_relatedScenario.of_gives hmade hready
    exact ⟨hready', List.forall_mem_append.2 ⟨by simpa using hwithin, hpool⟩⟩
  | edited _ hs hserved ih =>
    obtain ⟨hready, hpool⟩ := ih
    have served := (Mutator.completes_serve (hpool _ hs)).of_gives hserved ⟨hready, rfl⟩
    exact ⟨served.engine, List.forall_mem_cons.2 ⟨served.scenario, hpool⟩⟩
  | learned _ hlesson ih =>
    obtain ⟨hready, hpool⟩ := ih
    exact ⟨⟨hready.initialized, hready.sampler, hready.knowledge.learn (hlesson.names hpool)⟩, hpool⟩

/-- **No request of a session fails.** Take any accepted settings, seed and catalogue, any database,
and any sequence of scenarios made, scenarios edited and lessons drawn from them. The engine then
makes scenarios of one call without failing; it composes a scenario from dependencies or finds none;
and its mutator serves every request on each scenario that was produced so far. -/
theorem session_requests_succeed (h : Session settings c e pool) :
    (∀ auth, ∃ made e', Gives (Composing.adHocScenarios auth) e made e') ∧
    (∃ made e', Gives Composing.relatedScenario e made e') ∧
    ∀ s ∈ pool, ∀ request, ∃ outcome ed,
      Gives ((Mutator.ofSettings settings).serve request) ⟨e, s⟩ outcome ed := by
  obtain ⟨hready, hpool⟩ := h.ready
  refine ⟨fun auth => ?_, ?_, fun s hs request => ?_⟩
  · obtain ⟨made, e', hmade, -⟩ := Composing.succeeds_adHocScenarios.exists_gives hready
    exact ⟨made, e', hmade⟩
  · obtain ⟨made, e', hmade, -⟩ := Composing.succeeds_relatedScenario.exists_gives hready
    exact ⟨made, e', hmade⟩
  · have held : Editor.Holds c s ⟨e, s⟩ := ⟨hready, rfl⟩
    obtain ⟨outcome, ed, hserved, -⟩ := (Mutator.completes_serve (hpool s hs)).exists_gives held
    exact ⟨outcome, ed, hserved⟩

namespace Sample

/-- Users are created and listed. -/
def market : Catalogue := ⟨[createUser, listUsers]⟩

/-- An engine of the standard settings, before it knows any resource. -/
def newcomer : Engine := ((Engine.ofSettings .standard).toOption).getD idle

/-- The engine that took up the catalogue, without a database. -/
def marketplace : Engine := ((newcomer.load market none).toOption).getD idle

/-- Users are listed, alone. -/
def listed : Scenario := .ofCalls [listing []] .smartWithoutDependencies

end Sample

open Sample in
/-- The listing of users is sampled anew, and what came of it is learned. -/
theorem market_session_goes_on :
    ∃ (e : Engine) (edited : Scenario) (pool : List Scenario),
      Session .standard market e pool ∧ listed ∈ pool ∧ edited ∈ pool ∧
      edited.actionNames = ["POST:/users", "GET:/users"] ∧
      (∃ made e', Gives (Composing.adHocScenarios none) e made e') ∧
      (∃ made e', Gives Composing.relatedScenario e made e') ∧
      ∃ outcome ed, Gives ((Mutator.ofSettings .standard).serve .any) ⟨e, edited⟩ outcome ed := by
  have hnew : Engine.ofSettings .standard = .ok newcomer :=
    eq_ok_of_isSome_toOption idle (by decide +kernel)
  have hload : newcomer.load market none = .ok marketplace :=
    eq_ok_of_isSome_toOption idle (by decide +kernel)
  have session : Session .standard market marketplace [] := .opened hnew hload
  have some_listed : ((Composing.adHocScenarios none).run marketplace).1.toOption.any (listed ∈ ·) =
      true := by decide +kernel
  obtain ⟨scenarios, hmade, hlisted⟩ := (Option.any_eq_true ..).1 some_listed
  have made := session.adHoc (gives_of_toOption hmade)
  have hlisted : listed ∈ scenarios ++ [] := by simpa using hlisted
  have served : Gives ((Mutator.ofSettings .standard).serve .any)
      ⟨((Composing.adHocScenarios none).run marketplace).2, listed⟩ (.applied .modify [0]) _ :=
    gives_of_toOption (by decide +kernel)
  have learned := (made.edited hlisted served).learned
    (.edit (List.mem_cons_of_mem _ hlisted) List.mem_cons_self .empty .empty .better)
  obtain ⟨adHoc, related, serves⟩ := session_requests_succeed learned
  exact ⟨_, _, _, learned, List.mem_cons_of_mem _ hlisted, List.mem_cons_self, by decide +kernel,
    adHoc none, related, serves _ List.mem_cons_self .any⟩

end RestScenario
