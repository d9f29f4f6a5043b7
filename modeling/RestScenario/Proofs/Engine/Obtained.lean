import RestScenario.Proofs.Engine.Budget

/-!
# Locations in obtained scenarios

A scenario is obtained when an engine composes it or a mutator edits one that was obtained. As
outlines tell which locations are saved, and edits only move outlines around or bring in those of
sampled calls, every call of an obtained scenario saves the locations that its actions refer to
(`Scenario.Obtained.sound`).
-/

namespace RestScenario

/-- The scenarios that engines with a catalogue compose, and what requests to mutators make of
them. -/
inductive Scenario.Obtained (c : Catalogue) : Scenario → Prop
  | adHoc (budget : Nat) (auth : Option Auth) (e e' : Engine) (scenarios : List Scenario)
    (s : Scenario) (he : e.InUse c budget)
    (h : Gives (Composing.adHocScenarios auth) e scenarios e') (hs : s ∈ scenarios) : Obtained c s
  | related (budget : Nat) (e e' : Engine) (s : Scenario) (he : e.InUse c budget)
    (h : Gives Composing.relatedScenario e (some s) e') : Obtained c s
  /-- The request may also fail or not apply. -/
  | mutated (budget : Nat) (ed : Editor) (m : Mutator) (request : Request)
    (hs : Obtained c ed.scenario) (he : ed.engine.InUse c budget) :
    Obtained c ((m.serve request).run ed).2.scenario

variable {c : Catalogue} {budget : Nat} {s s' : Scenario}

theorem Revision.sound (h : Revision c budget s s')
    (hs : ∀ actions ∈ s.outlines, SoundOutline c actions) :
    ∀ actions ∈ s'.outlines, SoundOutline c actions := by
  intro actions hmem
  cases h with
  | kept h => exact hs actions (h.mem_iff.1 hmem)
  | removed old h hrest => exact hs actions (h.mem_iff.2 (List.mem_cons_of_mem _ hmem))
  | replaced old new others h h' hfits =>
    rcases List.mem_cons.1 (h'.mem_iff.1 hmem) with rfl | hmem
    · exact hfits.toSoundOutline
    · exact hs actions (h.mem_iff.2 (List.mem_cons_of_mem _ hmem))
  | added new h hfits =>
    rcases List.mem_cons.1 (h.mem_iff.1 hmem) with rfl | hmem
    · exact hfits.toSoundOutline
    · exact hs actions hmem

theorem Scenario.Obtained.sound (h : Obtained c s) :
    ∀ actions ∈ s.outlines, SoundOutline c actions := by
  induction h with
  | adHoc budget auth e e' scenarios s he h hs =>
    exact (Composing.sound_adHocScenarios.of_gives h he).2 s hs
  | related budget e e' s he h =>
    have composed := Composing.ensures_relatedScenario.of_gives h he
    exact (composed.2 s rfl).1
  | mutated budget ed m request hs he ih => exact (Mutator.revised_serve he).revision.sound ih

/-- **Locations are saved before they are referred to.** Take a catalogue whose paths were read and
whose actions refer to no location. In every call of every scenario obtained with it, an action that
refers to a location comes after a `POST` on a true ancestor of its path that saves this location.
In the created part of every generated call the location of an action follows from the action before
it: the path of that action, if the paths are not equivalent, and else the same location. -/
theorem locations_saved_and_linked (hread : c.IsRead) (hunlinked : c.IsUnlinked) :
    (∀ s : Scenario, s.Obtained c → ∀ call ∈ s.calls, LocationsSaved call.actions) ∧
    (∀ (key name : String) (options : SamplingOptions) (sampler sampler' : Sampler) (call : Call),
      sampler.InUse c → Gives (Sampler.generate key name options) sampler call sampler' →
        call.createdPart.IsChain Action.Follows) := by
  constructor
  · intro s hs call hcall
    have sound : SoundOutline c call.outline := hs.sound _ (List.mem_map_of_mem hcall)
    exact locationsSaved_of_outline (sound.saved hread hunlinked)
  · intro key name options sampler sampler' call hsampler hcall
    obtain ⟨-, m, source, source', hm, hbuilt⟩ := Sampler.ensures_generate.of_gives hcall hsampler
    exact ResourceModel.isChain_createdPart_of_gives_build hm hread hunlinked hbuilt

open Sample in
theorem order_refers_to_user_created_before :
    (∃ s : Scenario, s.Obtained shop ∧ s.calls.map (·.actions.map (·.locationId)) =
      [[none, some "/users"]] ∧ ∀ call ∈ s.calls, LocationsSaved call.actions) ∧
    ∃ call sampler', Gives (Sampler.generate "/users/\x7bid\x7d/orders" "POST-GET" (.ofBudget 3))
      shopkeeper.sampler call sampler' ∧
      call.actions.map (·.locationId) = [none, some "/users", some "/users"] ∧
      call.createdPart.IsChain Action.Follows := by
  have hunlinked : shop.IsUnlinked := by
    unfold Catalogue.IsUnlinked
    decide
  obtain ⟨saved, linked⟩ := locations_saved_and_linked isRead_shop hunlinked
  constructor
  · have composed : (Composing.relatedScenario.run shopkeeper).1.toOption.join.map
        (·.calls.map (·.actions.map (·.locationId))) = some [[none, some "/users"]] := by
      decide +kernel
    obtain ⟨s, hs, hlocations⟩ := Option.map_eq_some_iff.1 composed
    have one : Gives Composing.relatedScenario shopkeeper (some s) _ :=
      gives_of_toOption (Option.join_eq_some_iff.1 hs)
    have obtained : s.Obtained shop := .related 2 _ _ s inUse_shopkeeper one
    exact ⟨s, obtained, hlocations, saved s obtained⟩
  · have generated : ((Sampler.generate "/users/\x7bid\x7d/orders" "POST-GET" (.ofBudget 3)).run
        shopkeeper.sampler).1.toOption.map (·.actions.map (·.locationId)) =
          some [none, some "/users", some "/users"] := by decide +kernel
    obtain ⟨call, hcall, hlocations⟩ := Option.map_eq_some_iff.1 generated
    have one : Gives _ shopkeeper.sampler call _ := gives_of_toOption hcall
    exact ⟨call, _, one, hlocations, linked _ _ _ _ _ call inUse_shopkeeper.sampler one⟩

end RestScenario
