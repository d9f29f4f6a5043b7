import RestScenario.Proofs.Engine.Revised
import RestScenario.Proofs.Sampling.CreatingCalls

/-!
# The size of edited scenarios

What comes into a scenario keeps to what is left of the budget, and what comes in the place of a
call may also use up what that call did. A call that is sampled anew may be a single action beyond
the budget, yet it takes the place of one. So no edit makes a scenario larger than the budget and
larger than it was, and no edit empties a scenario or a call of it (`Revision.keeps`).
-/

namespace RestScenario

/-- The scenario has calls, and every call has actions. -/
def Scenario.IsFilled (s : Scenario) : Prop := s.calls ≠ [] ∧ ∀ call ∈ s.calls, call.actions ≠ []

theorem Scenario.isFilled_iff {s : Scenario} :
    s.IsFilled ↔ s.outlines ≠ [] ∧ ∀ actions ∈ s.outlines, 1 ≤ actions.length := by
  unfold IsFilled outlines
  rw [List.forall_mem_map]
  refine and_congr (not_congr List.map_eq_nil_iff.symm) (forall₂_congr fun call _ => ?_)
  rw [Call.length_outline]
  exact List.length_pos_iff.symm

section Order

variable {s : Scenario} {outlines : List (List Action)}

/-- The order of calls is of no account. -/
theorem Scenario.isFilled_of_perm (h : s.outlines.Perm outlines) (hne : outlines ≠ [])
    (hactions : ∀ actions ∈ outlines, 1 ≤ actions.length) : s.IsFilled := by
  rw [isFilled_iff]
  refine ⟨fun hempty => hne (List.nil_perm.1 (hempty ▸ h)), fun actions hmem => ?_⟩
  exact hactions actions (h.mem_iff.1 hmem)

theorem Scenario.size_of_perm (h : s.outlines.Perm outlines) :
    s.size = outlines.flatten.length :=
  s.size_eq_length_flatten.trans h.flatten.length_eq

end Order

/-- What a step of a run may make of a scenario. -/
def Scenario.KeepsTo (budget : Nat) (before after : Scenario) : Prop :=
  after.IsFilled ∧ after.size ≤ max budget before.size

variable {c : Catalogue} {budget : Nat} {s s' : Scenario}

theorem Revision.keeps (h : Revision c budget s s') (hs : s.IsFilled) : s.KeepsTo budget s' := by
  obtain ⟨hcalls, hactions⟩ := Scenario.isFilled_iff.1 hs
  have hsize := s.size_eq_length_flatten
  unfold Scenario.KeepsTo
  cases h with
  | kept h =>
    rw [Scenario.size_of_perm h]
    exact ⟨Scenario.isFilled_of_perm h hcalls hactions, by omega⟩
  | removed old h hrest =>
    have hothers : ∀ actions ∈ s'.outlines, 1 ≤ actions.length := fun actions hmem =>
      hactions actions (h.mem_iff.2 (List.mem_cons_of_mem _ hmem))
    have hwhole := Scenario.size_of_perm h
    rw [List.flatten_cons, List.length_append] at hwhole
    rw [s'.size_eq_length_flatten]
    exact ⟨Scenario.isFilled_of_perm (.refl _) hrest hothers, by omega⟩
  | replaced old new others h h' hfits =>
    have hall : ∀ actions ∈ old :: others, 1 ≤ actions.length := fun actions hmem =>
      hactions actions (h.mem_iff.2 hmem)
    obtain ⟨hold, hothers⟩ := List.forall_mem_cons.1 hall
    have hall' : ∀ actions ∈ new :: others, 1 ≤ actions.length :=
      List.forall_mem_cons.2 ⟨hfits.pos, hothers⟩
    have hwhole := Scenario.size_of_perm h
    have hlength := hfits.length_le
    rw [List.flatten_cons, List.length_append] at hwhole
    rw [Scenario.size_of_perm h', List.flatten_cons, List.length_append]
    exact ⟨Scenario.isFilled_of_perm h' (List.cons_ne_nil _ _) hall', by omega⟩
  | added new h hfits =>
    have hall : ∀ actions ∈ new :: s.outlines, 1 ≤ actions.length :=
      List.forall_mem_cons.2 ⟨hfits.pos, hactions⟩
    have hlength := hfits.length_le
    have hpos := hfits.pos
    rw [Scenario.size_of_perm h, List.flatten_cons, List.length_append]
    exact ⟨Scenario.isFilled_of_perm h (List.cons_ne_nil _ _) hall, by omega⟩

/-- Every step of a run keeps to the budget. -/
theorem Mutator.isChain_serveAll {ed : Editor} {requests : List (Mutator × Request)}
    (hed : ed.engine.InUse c budget) (hs : ed.scenario.IsFilled) :
    (ed.scenario :: (serveAll ed requests).map (·.2.scenario)).IsChain (Scenario.KeepsTo budget) := by
  induction requests generalizing ed with
  | nil => exact .singleton _
  | cons r rest ih =>
    obtain ⟨m, request⟩ := r
    obtain ⟨hengine, hrevision⟩ : ((m.serve request).run ed).2.Revised c budget ed.scenario :=
      revised_serve hed
    have hkeeps := hrevision.keeps hs
    exact .cons_cons hkeeps (ih hengine hkeeps.1)

/-- **Edits keep to the budget.** Take an engine in use, with any catalogue, and a scenario with
calls, none of them empty. Along any run of mutators, whatever their own limits, each step leaves
such a scenario, which has no more actions than the engine admits or than the scenario before the
step. A scenario made from dependencies has no more actions than the engine admits. -/
theorem scenarios_keep_to_budget :
    (∀ (c : Catalogue) (budget : Nat) (ed : Editor) (requests : List (Mutator × Request)),
      ed.engine.InUse c budget → ed.scenario.IsFilled →
        (ed.scenario :: (Mutator.serveAll ed requests).map (·.2.scenario)).IsChain
          (Scenario.KeepsTo budget)) ∧
    (∀ (c : Catalogue) (budget : Nat) (e e' : Engine) (s : Scenario),
      e.InUse c budget → Gives Composing.relatedScenario e (some s) e' → s.size ≤ budget) := by
  refine ⟨fun c budget ed requests => Mutator.isChain_serveAll, fun c budget e e' s he hs => ?_⟩
  have composed := Composing.ensures_relatedScenario.of_gives hs he
  exact (composed.2 s rfl).2

namespace Sample

/-- Creating a user. -/
def createUser : Action := ⟨.post, ⟨[.literal "users"]⟩, [], false, none, none⟩

/-- A call that creates a user. -/
def creation : Call :=
  .unseeded (.unvisited "POST" false 1) (.ofAction "/users" createUser) [createUser] .created

/-- An engine that knows that orders depend on users, and no resource yet. -/
def idle : Engine :=
  { engine with
    settings := { Settings.standard with maxTestSize := 2 }
    knowledge := (Knowledge.empty 0.6 true).updateDependency "/users/\x7bid\x7d/orders"
      (.singleton "/users") "ADD" 1.0 }

/-- The engine with the shop. -/
def shopkeeper : Engine := ((idle.load shop none).toOption).getD idle

theorem inUse_shopkeeper : shopkeeper.InUse shop 2 := by
  have loaded : idle.load shop none = .ok shopkeeper :=
    eq_ok_of_isSome_toOption idle (by decide +kernel)
  exact Engine.inUse_of_load loaded

/-- The shop with more calls than its scenarios may have actions. -/
def overfull : Editor := ⟨shopkeeper, .ofCalls [creation, creation, creation] .random⟩

/-- Two requests to a mutator that would admit more actions. -/
def tidying : List (Mutator × Request) :=
  [(.ofSettings .standard, .edit .delete), (.ofSettings .standard, .edit .replace)]

end Sample

open Sample in
theorem overfull_scenario_tidied :
    (overfull.scenario :: (Mutator.serveAll overfull tidying).map (·.2.scenario)).IsChain
      (Scenario.KeepsTo 2) ∧
    (Mutator.serveAll overfull tidying).map (·.2.scenario.size) = [2, 2] ∧
    ∃ s e', Gives Composing.relatedScenario shopkeeper (some s) e' ∧ s.size ≤ 2 := by
  obtain ⟨run, related⟩ := scenarios_keep_to_budget
  have filled : overfull.scenario.IsFilled := by
    refine ⟨List.cons_ne_nil _ _, ?_⟩
    decide +kernel
  refine ⟨run shop 2 overfull tidying inUse_shopkeeper filled, by decide +kernel, ?_⟩
  have composed : (Composing.relatedScenario.run shopkeeper).1.toOption.join.isSome = true := by
    decide +kernel
  obtain ⟨s, hs⟩ := Option.isSome_iff_exists.1 composed
  have one : Gives Composing.relatedScenario shopkeeper (some s) _ :=
    gives_of_toOption (Option.join_eq_some_iff.1 hs)
  exact ⟨s, _, one, related shop 2 _ _ s inUse_shopkeeper one⟩

end RestScenario
