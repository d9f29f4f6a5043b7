import RestScenario.Proofs.Engine.Revised

/-!
# What an edit did

An edit that was made has gone through certain steps: the engine drew a position or proposed a call,
and the scenario was changed at the end. `Mutator.Performed` says for each kind of edit which steps
these were, with the engines between them and the scenario before and after; what is to be shown of
edits is read off there (`Mutator.performed_of_perform`).
-/

namespace RestScenario

/-- What was done when a mutator made an edit at certain positions. -/
inductive Mutator.Performed (m : Mutator) (ed ed' : Editor) : Edit → List Nat → Prop
  | add {c : Call} {position : Nat}
    (hproposed : Gives (Editing.proposeCall ed.scenario m.dependencyHeuristics) ed.engine (some c)
      ed'.engine)
    (hadd : ed.scenario.addCall position (c.bindAt ed.scenario position) = .ok ed'.scenario) :
    Performed m ed ed' .add [position]
  | delete {position : Nat}
    (hdrawn : Gives (Composing.draw (Random.choose ed.scenario.deletablePositions)) ed.engine
      (some position) ed'.engine)
    (hremove : ed.scenario.removeCall position = .ok ed'.scenario) :
    Performed m ed ed' .delete [position]
  | swap {a b : Nat} (hne : a ≠ b)
    (hdrawn : Gives (Composing.draw (Random.chooseTwo ed.scenario.length)) ed.engine (a, b)
      ed'.engine)
    (hswap : ed.scenario.swapCalls (min a b) (max a b) = .ok ed'.scenario) :
    Performed m ed ed' .swap [min a b, max a b]
  | replace {position : Nat} {e₁ e₂ : Engine} {key : String} {old c : Call}
    (hplace : Gives (Editing.choosePosition ed.scenario) ed.engine (some position) e₁)
    (hold : ed.scenario.call position = .ok old)
    (hdrawn : Gives (Composing.draw (Random.choose (e₁.unusedKeys ed.scenario))) e₁ (some key) e₂)
    (hsampled : Gives (Composing.sampleAnyCall key (e₁.remainingBudget ed.scenario + old.length)) e₂
      (some c) ed'.engine)
    (hreplace : ed.scenario.replaceCall position (c.bindAt ed.scenario position) =
      .ok ed'.scenario) :
    Performed m ed ed' .replace [position]
  | modify {position : Nat} {e₁ e₂ : Engine} {old c seeded : Call}
    (hplace : Gives (Editing.choosePosition ed.scenario) ed.engine (some position) e₁)
    (hold : ed.scenario.call position = .ok old)
    (hsampled : Gives (Editing.resample old (e₁.remainingBudget ed.scenario + old.length)) e₁ c e₂)
    (hseeded : Gives (Composing.seedCall c false) e₂ seeded ed'.engine)
    (hreplace : ed.scenario.replaceCall position (seeded.bindAt ed.scenario position) =
      .ok ed'.scenario) :
    Performed m ed ed' .modify [position]

/-! ## Steps of an editor -/

namespace Editing

variable {ed ed' : Editor} {α β : Type}

theorem gives_scenario_bind {f : Scenario → Editing β} {b : β}
    (h : Gives (scenario >>= f) ed b ed') : Gives (f ed.scenario) ed b ed' := by
  obtain ⟨s, ed₁, hs, h⟩ := gives_bind.1 h
  obtain ⟨met, ed₂, hmet, hs⟩ := gives_bind.1 hs
  obtain ⟨rfl, rfl⟩ := gives_get.1 hmet
  obtain ⟨rfl, rfl⟩ := gives_pure.1 hs
  exact h

theorem gives_compose_bind {x : Composing α} {f : α → Editing β} {b : β}
    (h : Gives (compose x >>= f) ed b ed') :
    ∃ a e₁, Gives x ed.engine a e₁ ∧ Gives (f a) { ed with engine := e₁ } b ed' := by
  obtain ⟨a, ed₁, hx, h⟩ := gives_bind.1 h
  obtain ⟨hresult, rfl⟩ := Prod.mk.inj hx
  exact ⟨a, _, Prod.ext hresult rfl, h⟩

theorem gives_revise_return {change : Scenario → Except Error Scenario} {a b : α}
    (h : Gives (do revise change; return some a : Editing (Option α)) ed (some b) ed') :
    a = b ∧ change ed.scenario = .ok ed'.scenario ∧ ed'.engine = ed.engine := by
  obtain ⟨_, ed₁, hrevise, h⟩ := gives_bind.1 h
  obtain ⟨hab, rfl⟩ := gives_pure.1 h
  exact ⟨Option.some.inj hab, Mutator.gives_revise hrevise⟩

end Editing

/-! ## Edits -/

namespace Mutator

variable {m : Mutator} {ed ed' : Editor} {position i j : Nat}

open Editing

theorem gives_listed {α : Type} {x : Editing (Option α)} {list : α → List Nat}
    {positions : List Nat}
    (h : Gives (do return (← x).map list : Editing (Option (List Nat))) ed (some positions) ed') :
    ∃ place, Gives x ed (some place) ed' ∧ list place = positions := by
  obtain ⟨performed, ed₁, hx, h⟩ := gives_bind.1 h
  obtain ⟨hlisted, rfl⟩ := gives_pure.1 h
  obtain ⟨place, rfl, hplace⟩ := Option.map_eq_some_iff.1 hlisted
  exact ⟨place, hx, hplace⟩

theorem performed_of_add (h : Gives (add m.dependencyHeuristics) ed (some position) ed') :
    Performed m ed ed' .add [position] := by
  obtain ⟨proposed, e₁, hproposed, h⟩ := gives_compose_bind (gives_scenario_bind h)
  cases proposed with
  | none => simp at h
  | some c =>
    obtain ⟨rfl, hadd, rfl⟩ := gives_revise_return h
    exact .add hproposed hadd

theorem performed_of_delete (h : Gives delete ed (some position) ed') :
    Performed m ed ed' .delete [position] := by
  have h := gives_scenario_bind h
  split at h
  · simp at h
  · obtain ⟨chosen, e₁, hdrawn, h⟩ := gives_compose_bind h
    cases chosen with
    | none => simp at h
    | some place =>
      obtain ⟨rfl, hremove, rfl⟩ := gives_revise_return h
      exact .delete hdrawn hremove

theorem performed_of_swap (h : Gives swap ed (some (i, j)) ed') :
    Performed m ed ed' .swap [i, j] := by
  have h := gives_scenario_bind h
  split at h
  · simp at h
  · rename_i hlength
    obtain ⟨⟨a, b⟩, e₁, hdrawn, h⟩ := gives_compose_bind h
    obtain ⟨hplaces, hswap, rfl⟩ := gives_revise_return h
    obtain ⟨rfl, rfl⟩ := Prod.mk.inj hplaces
    have hne : a ≠ b := by
      obtain ⟨source, hpair⟩ := Composing.gives_draw hdrawn
      have hne : ((Random.chooseTwo ed.scenario.length).run source).1.1 ≠ _ :=
        Random.ne_of_chooseTwo (Nat.le_of_not_lt hlength)
      rwa [hpair] at hne
    exact .swap hne hdrawn hswap

theorem performed_of_replace (h : Gives replace ed (some position) ed') :
    Performed m ed ed' .replace [position] := by
  obtain ⟨chosen, e₁, hplace, h⟩ := gives_compose_bind (gives_scenario_bind h)
  cases chosen with
  | none => simp at h
  | some place =>
    obtain ⟨old, ed₁, hfound, h⟩ := gives_bind.1 h
    obtain ⟨hold, rfl⟩ := gives_liftExcept_iff.1 hfound
    obtain ⟨met, ed₂, hmet, h⟩ := gives_bind.1 h
    obtain ⟨rfl, rfl⟩ := gives_get.1 hmet
    obtain ⟨key, e₂, hdrawn, h⟩ := gives_compose_bind h
    cases key with
    | none => simp at h
    | some key =>
      obtain ⟨sampled, e₃, hsampled, h⟩ := gives_compose_bind h
      cases sampled with
      | none => simp at h
      | some c =>
        obtain ⟨rfl, hreplace, rfl⟩ := gives_revise_return h
        exact .replace hplace hold hdrawn hsampled hreplace

theorem performed_of_modify (h : Gives modify ed (some position) ed') :
    Performed m ed ed' .modify [position] := by
  obtain ⟨chosen, e₁, hplace, h⟩ := gives_compose_bind (gives_scenario_bind h)
  cases chosen with
  | none => simp at h
  | some place =>
    obtain ⟨old, ed₁, hfound, h⟩ := gives_bind.1 h
    obtain ⟨hold, rfl⟩ := gives_liftExcept_iff.1 hfound
    obtain ⟨met, ed₂, hmet, h⟩ := gives_bind.1 h
    obtain ⟨rfl, rfl⟩ := gives_get.1 hmet
    obtain ⟨c, e₂, hsampled, h⟩ := gives_compose_bind h
    obtain ⟨seeded, e₃, hseeded, h⟩ := gives_compose_bind h
    obtain ⟨rfl, hreplace, rfl⟩ := gives_revise_return h
    exact .modify hplace hold hsampled hseeded hreplace

/-- **An edit that was made was made in these steps.** -/
theorem performed_of_perform {edit : Edit} {positions : List Nat}
    (h : Gives (m.perform edit) ed (some positions) ed') : Performed m ed ed' edit positions := by
  cases edit with
  | add =>
    obtain ⟨position, hmade, rfl⟩ := gives_listed h
    exact performed_of_add hmade
  | delete =>
    obtain ⟨position, hmade, rfl⟩ := gives_listed h
    exact performed_of_delete hmade
  | swap =>
    obtain ⟨places, hmade, rfl⟩ := gives_listed h
    exact performed_of_swap hmade
  | replace =>
    obtain ⟨position, hmade, rfl⟩ := gives_listed h
    exact performed_of_replace hmade
  | modify =>
    obtain ⟨position, hmade, rfl⟩ := gives_listed h
    exact performed_of_modify hmade

/-- A request that was applied made its edit in these steps, on the scenario that it met and with an
engine that may have drawn for the kind of edit; a repair came after it. -/
theorem performed_of_applied {request : Request} {edit : Edit} {positions : List Nat}
    (h : Gives (m.serve request) ed (.applied edit positions) ed') :
    ∃ e s, (e = ed.engine ∨ ∃ kinds,
        Gives (Composing.draw (Random.choose kinds)) ed.engine (some edit) e) ∧
      Performed m ⟨e, ed.scenario⟩ ⟨ed'.engine, s⟩ edit positions ∧ ed'.scenario = s.repair := by
  obtain ⟨ed₁, ed₂, hdrawn, hperform, hengine, hrepair⟩ := steps_of_serve h
  have hsteps := performed_of_perform hperform
  rcases hdrawn with rfl | ⟨kinds, hscenario, hdrawn⟩
  · exact ⟨ed₁.engine, ed₂.scenario, .inl rfl, hengine ▸ hsteps, hrepair⟩
  · exact ⟨ed₁.engine, ed₂.scenario, .inr ⟨kinds, hdrawn⟩, hengine ▸ hscenario ▸ hsteps, hrepair⟩

end Mutator

end RestScenario
