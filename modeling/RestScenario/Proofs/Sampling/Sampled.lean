import RestScenario.Proofs.Random.Draw
import RestScenario.Proofs.Sampling.Declared
import RestScenario.Proofs.Sampling.Locations

/-!
# Sampled calls

Whatever a sampler is asked for, its model stays in use (`Sampler.InUse`), and each call that it
gives has an action, has declared actions alone and saves the locations that it refers to
(`SoundOutline`). A call that is sampled within a budget keeps to it: templates that do not fit are
passed over, and no template of size 0 is in use, so where one is chosen the budget is at least 1.
-/

namespace RestScenario

open RestScenario.Random

/-! ## Sound outlines -/

/-- What the outline of every sampled call has. -/
structure SoundOutline (c : Catalogue) (actions : List Action) : Prop where
  pos : 1 ≤ actions.length
  declared : ∀ a ∈ actions, c.Declares a
  saved : c.IsRead → c.IsUnlinked → LocationsSaved actions

/-- A sound outline within a budget. -/
structure FitOutline (c : Catalogue) (budget : Nat) (actions : List Action) : Prop
    extends SoundOutline c actions where
  length_le : actions.length ≤ budget

/-- A call, if one is given, keeps to a budget. -/
def FitResult (c : Catalogue) (budget : Nat) (result : Option Call) : Prop :=
  ∀ call ∈ result, FitOutline c budget call.outline

section Budgets

variable {c : Catalogue} {budget budget' : Nat} {actions : List Action} {call : Call}

theorem FitOutline.mono (h : FitOutline c budget actions) (hle : budget ≤ budget') :
    FitOutline c budget' actions :=
  ⟨h.toSoundOutline, h.length_le.trans hle⟩

@[simp]
theorem fitResult_none : FitResult c budget none := by
  rintro _ ⟨⟩

@[simp]
theorem fitResult_some : FitResult c budget (some call) ↔ FitOutline c budget call.outline :=
  ⟨fun h => h call rfl, fun h _ hcall => Option.some.inj hcall ▸ h⟩

end Budgets

namespace ResourceModel

variable {c : Catalogue} {m : ResourceModel} {key name : String} {r : Resource}
  {ts : List Template} {options : SamplingOptions} {budget : Nat} {source source' : Source}
  {call : Call}

theorem sound_of_gives_build (hm : m.InUse c)
    (h : Gives (m.build key name options) source call source') : SoundOutline c call.outline where
  pos := by
    rw [Call.length_outline]
    exact (length_of_gives_build hm h).1
  declared := declared_of_gives_build hm h
  saved hread hunlinked :=
    locationsSaved_outline (locationsSaved_of_gives_build hm hread hunlinked h)

/-- No template in use has size 0, so where one fits the budget is not 0. -/
theorem InUse.one_le_budget (hm : m.InUse c) (hr : m.get? key = some r)
    (hts : ∀ t ∈ ts, t ∈ r.templates.values ∧ t.size ≤ budget) :
    ∀ name ∈ ts.map (·.name), 1 ≤ budget := by
  intro name hname
  obtain ⟨t, ht, -⟩ := List.mem_map.1 hname
  obtain ⟨hmem, hsize⟩ := hts t ht
  obtain ⟨name, ht⟩ := SortedMap.mem_values_iff.1 hmem
  exact (hm.template hr ht).1.trans hsize

end ResourceModel

/-! ## What a sampler gives -/

namespace Sampler

variable {c : Catalogue} {key name : String} {options : SamplingOptions} {names : List String}

/-- The model of the sampler is that of the catalogue, after some visits. -/
def InUse (c : Catalogue) (s : Sampler) : Prop := s.model.InUse c

theorem ensures_draw {α : Type} {d : Drawing α} :
    Ensures (InUse c) (draw d) fun a => ∃ source source', Gives d source a source' := by
  intro s hs
  refine ⟨fun a ha => ⟨hs, s.source, (d.run s.source).2, Prod.ext ha rfl⟩, fun e he => hs⟩

theorem ensures_drawAlways {α : Type} {d : Draw α} :
    Ensures (InUse c) (drawAlways d) fun a => ∃ source, (d.run source).1 = a := by
  intro s hs
  refine ⟨fun a ha => ⟨hs, s.source, Except.ok.inj ha⟩, fun e he => hs⟩

theorem ensures_resource :
    Ensures (InUse c) (resource key) fun r =>
      ∃ m : ResourceModel, m.InUse c ∧ m.get? key = some r := by
  refine ensures_bind ensures_get fun s hs => ?_
  exact ensures_liftExcept.imp fun r hr => ⟨s.model, hs, ResourceModel.resource_eq_ok_iff.1 hr⟩

theorem ensures_visit : Ensures (InUse c) (visit key name) fun _ => True :=
  fun _ hs => ⟨fun _ _ => ⟨ResourceModel.InUse.visit hs, trivial⟩, fun _ he => nomatch he⟩

/-- A generated call was built from a model in use. -/
theorem ensures_generate :
    Ensures (InUse c) (generate key name options) fun call =>
      ∃ (m : ResourceModel) (source source' : Source), m.InUse c ∧
        Gives (m.build key name options) source call source' := by
  refine ensures_bind ensures_get fun s hs => ?_
  refine ensures_bind ensures_draw fun call hcall => ?_
  obtain ⟨source, source', hbuilt⟩ := hcall
  exact ensures_bind ensures_visit fun _ _ => ensures_pure ⟨s.model, source, source', hs, hbuilt⟩

theorem sound_generate : Ensures (InUse c) (generate key name options) fun call =>
    SoundOutline c call.outline :=
  ensures_generate.imp fun _ ⟨_, _, _, hm, hbuilt⟩ => ResourceModel.sound_of_gives_build hm hbuilt

theorem fits_generateOneOf (hcheck : options.checkSize = true)
    (hbudget : ∀ name ∈ names, 1 ≤ options.budget) :
    Ensures (InUse c) (generateOneOf key names options) (FitResult c options.budget) := by
  refine ensures_bind ensures_drawAlways fun chosen hchosen => ?_
  cases chosen with
  | none => exact ensures_pure fitResult_none
  | some name =>
    obtain ⟨source, hchosen⟩ := hchosen
    have hone : 1 ≤ options.budget := hbudget name (mem_of_choose hchosen)
    refine ensures_map ensures_generate fun call hcall => fitResult_some.2 ?_
    obtain ⟨m, source, source', hm, hbuilt⟩ := hcall
    refine ⟨ResourceModel.sound_of_gives_build hm hbuilt, ?_⟩
    have hlength := (ResourceModel.length_of_gives_build hm hbuilt).2 hcheck
    rw [Call.length_outline]
    omega

/-- A single action makes a sound call. -/
theorem fits_sampleVerb {v : Verb} :
    Ensures (InUse c) (sampleVerb key v) fun call => FitOutline c 1 call.outline := by
  refine ensures_bind ensures_resource fun r hr => ?_
  obtain ⟨m, hm, hr⟩ := hr
  cases hown : r.action? v with
  | none => exact ensures_throw
  | some entry =>
    refine ensures_bind ensures_drawAlways fun a ha => ?_
    obtain ⟨source, rfl⟩ := ha
    refine ensures_bind ensures_visit fun _ _ => ensures_pure ?_
    have hmem : entry ∈ c.actions :=
      Sites.mem_of_mem_actions (hm.sites_eq ▸ hm.site hr) (Sites.mem_of_action? hown)
    have hdeclared : ∀ a ∈ [(entry.randomize.run source).1.outline], c.Declares a := by
      rw [Action.outline_randomize]
      exact List.forall_mem_singleton.2 ⟨entry, hmem, Action.signature_outline.symm⟩
    refine ⟨⟨Nat.le_refl 1, hdeclared, fun hread hunlinked => ?_⟩, Nat.le_refl 1⟩
    have hoffers : m.sites.Offers entry :=
      Sites.offers_of_mem_actions (hm.wellFormed hread) (hm.site hr) (Sites.mem_of_action? hown)
    have hnone : entry.locationId = none := ResourceModel.locationId_of_offers hm hunlinked hoffers
    refine .of_isChain (.singleton _) ?_
    rintro _ ⟨⟩
    exact hnone

theorem fits_sampleOneAction :
    Ensures (InUse c) (sampleOneAction key) fun call => FitOutline c 1 call.outline := by
  refine ensures_bind ensures_resource fun r _ => ?_
  refine ensures_bind ensures_drawAlways fun chosen _ => ?_
  cases chosen with
  | none => exact ensures_throw
  | some a => exact fits_sampleVerb

theorem fits_sampleAny (hcheck : options.checkSize = true) :
    Ensures (InUse c) (sampleAny key options) (FitResult c options.budget) := by
  refine ensures_bind ensures_resource fun r hr => ?_
  obtain ⟨m, hm, hr⟩ := hr
  dsimp only
  split
  · exact ensures_pure fitResult_none
  · refine fits_generateOneOf hcheck (hm.one_le_budget hr fun t ht => ?_)
    simp only [List.mem_filter, decide_eq_true_eq] at ht
    exact ht.1

theorem fits_sampleIndependent (hcheck : options.checkSize = true) :
    Ensures (InUse c) (sampleIndependent key options) (FitResult c options.budget) := by
  refine ensures_bind ensures_resource fun r hr => ?_
  obtain ⟨m, hm, hr⟩ := hr
  split
  · exact fits_sampleAny hcheck
  · refine fits_generateOneOf hcheck (hm.one_le_budget hr fun t ht => ?_)
    simp only [Resource.independentTemplates, List.mem_filter, decide_eq_true_eq] at ht
    exact ⟨ht.1.1, ht.2⟩

theorem fits_generateAnother {call : Call} (hcheck : options.checkSize = true) :
    Ensures (InUse c) (generateAnother call options) (FitResult c options.budget) := by
  refine ensures_bind ensures_resource fun r hr => ?_
  obtain ⟨m, hm, hr⟩ := hr
  refine fits_generateOneOf hcheck (hm.one_le_budget hr fun t ht => ?_)
  simp only [List.mem_filter, Bool.and_eq_true, decide_eq_true_eq] at ht
  exact ⟨ht.1, ht.2.2⟩

theorem sound_generatePostChain :
    Ensures (InUse c) (generatePostChain key options) fun result =>
      ∀ call ∈ result, SoundOutline c call.outline := by
  refine ensures_bind ensures_resource fun r _ => ?_
  split
  · exact ensures_pure (by simp)
  · exact ensures_map sound_generate fun call hcall => by simpa using hcall

end Sampler

end RestScenario
