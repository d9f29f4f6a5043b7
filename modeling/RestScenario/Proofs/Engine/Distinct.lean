import RestScenario.Proofs.Engine.Identified
import RestScenario.Proofs.Engine.Recognized
import RestScenario.Proofs.Learning.Distinct

/-!
# Scenarios on different resources

Where no resource is known to depend on itself, no edit puts two calls of a scenario on one resource
(`Mutator.isDistinct_serve`). A call that is added is on a resource that no call is on
(`Editing.fresh_of_proposeCall`): the resource was drawn from those that are not used, or a dependency
led to it, and only one of a resource on itself leads to a resource that is used. All other edits leave
the resources of the calls different whatever is known (`Inference.Edited.nodup`).
-/

namespace RestScenario

open Inference

/-- No two calls of the scenario are on one resource. -/
def Scenario.IsDistinct (s : Scenario) : Prop := (s.calls.map Call.resource).Nodup

theorem Scenario.isDistinct_repair {s : Scenario} : s.repair.IsDistinct ↔ s.IsDistinct := by
  unfold IsDistinct
  rw [resources_repair]

variable {e e' : Engine} {s : Scenario} {c : Call}

/-! ## Composed scenarios -/

namespace Composing

theorem isDistinct_adHocScenarios {auth : Option Auth} :
    Always (adHocScenarios auth) fun scenarios => ∀ s ∈ scenarios, s.IsDistinct := by
  refine single_adHocScenarios.imp fun scenarios h s hs => ?_
  obtain ⟨c, rfl⟩ := h s hs
  exact Scenario.isDistinct_repair.2 (List.nodup_singleton _)

end Composing

/-! ## Proposed calls -/

namespace Composing

theorem fresh_of_mem_leads {lead : Lead} (he : e.knowledge.OnOthers) (h : lead ∈ leads e s) :
    lead.target ∉ s.resourceKeys := by
  obtain ⟨r, hr, -, hself | hfresh⟩ := relation_of_mem_leads h
  · exact absurd hself (Bool.eq_false_iff.1 (he.isOnSelf_eq hr))
  · exact hfresh

/-- A call that follows a dependency is on a resource that is not used. -/
theorem fresh_of_proposeDependency {source : String} (he : e.knowledge.OnOthers)
    (h : Gives (proposeDependency s) e (some (c, source)) e') : c.resource ∉ s.resourceKeys := by
  obtain ⟨met, e₁, hmet, h⟩ := gives_bind.1 h
  obtain ⟨rfl, rfl⟩ := gives_get.1 hmet
  obtain ⟨passed, e₁, hpassed, h⟩ := gives_bind.1 h
  obtain ⟨chosen, e₂, hchosen, h⟩ := gives_bind.1 h
  obtain ⟨words, hchosen⟩ := gives_draw hchosen
  cases chosen with
  | none => simp at h
  | some lead =>
    have hlead := mem_of_choose_passed (subset_drawLeads.of_gives hpassed) hchosen
    obtain ⟨sampled, e₃, hsampled, h⟩ := gives_bind.1 h
    cases sampled with
    | none => simp at h
    | some call =>
      have hon : call.resource = lead.target := (seeded_sampleCall.of_gives hsampled call rfl).resource
      obtain ⟨hcall, -⟩ := gives_pure.1 h
      obtain ⟨rfl, -⟩ := Prod.mk.inj (Option.some.inj hcall)
      exact hon ▸ fresh_of_mem_leads he hlead

theorem fresh_of_proposeUnused (h : Gives (proposeUnused s) e (some c) e') :
    c.resource ∉ s.resourceKeys := by
  obtain ⟨met, e₁, hmet, h⟩ := gives_bind.1 h
  obtain ⟨rfl, rfl⟩ := gives_get.1 hmet
  obtain ⟨chosen, e₁, hchosen, h⟩ := gives_bind.1 h
  obtain ⟨words, hchosen⟩ := gives_draw hchosen
  cases chosen with
  | none => simp at h
  | some key =>
    have hon : c.resource = key := keyedResult_some.1 (keyed_sampleAnyCall.of_gives h)
    exact hon ▸ of_decide_eq_true (List.mem_filter.1 (Random.mem_of_choose hchosen)).2

end Composing

/-- **A call to add is on a resource that is not used**, where no resource depends on itself. -/
theorem Editing.fresh_of_proposeCall {heuristics : Float} (he : e.knowledge.OnOthers)
    (h : Gives (proposeCall s heuristics) e (some c) e') : c.resource ∉ s.resourceKeys := by
  unfold proposeCall at h
  extract_lets afterProposed afterGuided at h
  have hproposed : ∀ (proposed : Option (Call × String)) {e₁ : Engine},
      (∀ call source, proposed = some (call, source) → call.resource ∉ s.resourceKeys) →
        Gives (afterProposed proposed) e₁ (some c) e' → c.resource ∉ s.resourceKeys := by
    intro proposed e₁ hfresh h
    cases proposed with
    | none => exact Composing.fresh_of_proposeUnused h
    | some found =>
      obtain ⟨hcall, -⟩ := gives_pure.1 h
      exact Option.some.inj hcall ▸ hfresh found.1 found.2 rfl
  have hguided : ∀ {guided : Bool} {e₁ : Engine}, e₁.knowledge.OnOthers →
      Gives (afterGuided guided) e₁ (some c) e' → c.resource ∉ s.resourceKeys := by
    intro guided e₁ he₁ h
    unfold afterGuided at h
    split at h <;> obtain ⟨proposed, e₂, hfound, h⟩ := gives_bind.1 h
    · refine hproposed proposed (fun call source hsome => ?_) h
      exact Composing.fresh_of_proposeDependency he₁ (hsome ▸ hfound)
    · obtain ⟨rfl, -⟩ := gives_pure.1 hfound
      exact hproposed none (by simp) h
  split at h <;> obtain ⟨guided, e₁, hdrawn, h⟩ := gives_bind.1 h
  · -- the draw leaves what is known
    exact hguided ((Composing.numbers_draw.issues hdrawn).knowledge ▸ he) h
  · obtain ⟨-, rfl⟩ := gives_pure.1 hdrawn
    exact hguided he h

/-! ## Edits -/

/-- An edit leaves the resources of the calls different, unless it adds a call. -/
theorem Inference.Edited.nodup {edit : Edit} {positions : List Nat} {previous current : List Call}
    (h : Edited edit positions previous current) (hedit : edit ≠ .add)
    (hdistinct : (previous.map Call.resource).Nodup) : (current.map Call.resource).Nodup := by
  cases h with
  | add => exact absurd rfl hedit
  | delete => exact hdistinct.sublist (((List.sublist_cons_self _ _).append_left _).map _)
  | modify resource => simpa [resource] using hdistinct
  | @replace front back old new fresh =>
    rw [List.map_append, List.map_cons, List.nodup_middle, List.nodup_cons, ← List.map_append]
      at hdistinct ⊢
    refine ⟨fun hused => ?_, hdistinct.2⟩
    obtain ⟨other, hother, hsame⟩ := List.mem_map.1 hused
    refine fresh other ?_ hsame
    exact List.perm_middle.mem_iff.2 (List.mem_cons_of_mem _ hother)
  | swap => exact (exchanged_perm.map Call.resource).nodup_iff.1 hdistinct

namespace Mutator

variable {m : Mutator} {ed ed' : Editor} {edit : Edit} {positions : List Nat} {request : Request}

/-- An edit leaves the calls on different resources, where none is known to depend on itself. -/
theorem Performed.isDistinct (h : Performed m ed ed' edit positions)
    (he : ed.engine.knowledge.OnOthers) (hs : ed.scenario.IsDistinct) : ed'.scenario.IsDistinct := by
  by_cases hedit : edit = .add
  · subst hedit
    cases h with
    | add hproposed hadd =>
      have hfresh := Editing.fresh_of_proposeCall he hproposed
      have hperm := (Scenario.addCall_perm hadd).2.map Call.resource
      refine hperm.nodup_iff.2 (List.nodup_cons.2 ⟨?_, hs⟩)
      rw [Call.resource_of_frame Call.frame_bindAt]
      exact fun hmem => hfresh (SortedSet.mem_ofList.2 hmem)
  · exact h.edited.nodup hedit hs

/-- **Edits keep the calls on different resources**, where none is known to depend on itself, and so
does a request that fails or does not apply. -/
theorem isDistinct_serve (he : ed.engine.knowledge.OnOthers) (hs : ed.scenario.IsDistinct) :
    ((m.serve request).run ed).2.scenario.IsDistinct := by
  rcases m.applied_or_kept request ed with ⟨edit, positions, happlied⟩ | hkept
  · obtain ⟨e, edited, hadvances, hperformed, hrepair⟩ := advances_of_applied happlied
    have hedited : edited.IsDistinct := hperformed.isDistinct (hadvances.knowledge ▸ he) hs
    exact hrepair ▸ Scenario.isDistinct_repair.2 hedited
  · exact hkept ▸ hs

end Mutator

end RestScenario
