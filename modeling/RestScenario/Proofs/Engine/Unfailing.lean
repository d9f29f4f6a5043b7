import RestScenario.Proofs.Engine.Related
import RestScenario.Proofs.Learning.Scope
import RestScenario.Proofs.Sampling.Realized

/-!
# An engine that is ready does not fail

An engine is ready when it took up a catalogue and has learned of its resources alone
(`Engine.Ready`). Whatever it samples for, it takes from its model or from its knowledge, so it asks
for resources and templates that there are: composing succeeds, and all calls that come of it are on
resources of the catalogue (`Composing.succeeds_adHocScenarios`, `Composing.succeeds_relatedScenario`).
-/

namespace RestScenario

/-! ## Engines that are ready -/

/-- The engine took up a catalogue, and what it has learned is about its resources. -/
structure Engine.Ready (c : Catalogue) (e : Engine) : Prop where
  initialized : e.initialized = true
  sampler : e.sampler.InUse c
  knowledge : e.knowledge.Within c.HasResource

/-- An engine is ready when it has taken up a catalogue. -/
theorem Engine.ready_of_load {c : Catalogue} {settings : Settings} {e e' : Engine}
    {database : Option Database} (h : Engine.ofSettings settings = .ok e)
    (hload : e.load c database = .ok e') : e'.Ready c := by
  obtain ⟨_, -, h⟩ := bind_eq_ok.1 h
  obtain rfl := Except.ok.inj h
  obtain ⟨m, hmodel, hload⟩ := bind_eq_ok.1 hload
  obtain rfl := Except.ok.inj hload
  have hm := ResourceModel.inUse_of_ofCatalogue hmodel
  refine ⟨rfl, hm, ?_⟩
  exact (Knowledge.within_empty _ _).init fun key r hr => ⟨hm.hasResource hr, hm.key_eq hr⟩

/-- All calls of the scenario are on known resources. -/
def Scenario.Within (known : String → Prop) (s : Scenario) : Prop :=
  ∀ key ∈ s.calls.map Call.resource, known key

namespace Scenario

variable {known : String → Prop} {s : Scenario} {call : Call}

theorem Within.of_mem (h : s.Within known) (hc : call ∈ s.calls) : known call.resource :=
  h _ (List.mem_map_of_mem hc)

theorem within_repair : s.repair.Within known ↔ s.Within known := by
  unfold Within
  rw [resources_repair]

end Scenario

/-- The call, if one is given, is on a resource of the catalogue. -/
def OfferedResult (c : Catalogue) (result : Option Call) : Prop :=
  ∀ call ∈ result, c.HasResource call.resource

namespace Composing

variable {c : Catalogue} {key : String} {budget : Nat} {call : Call} {s : Scenario}

/-! ## Steps of an engine -/

theorem succeeds_sample {α : Type} {x : Sampled α} {P : α → Prop}
    (h : Succeeds (Sampler.InUse c) x P) : Succeeds (Engine.Ready c) (sample x) P := by
  intro e he
  obtain ⟨hok, herror⟩ := h e.sampler he.sampler
  refine ⟨fun a ha => ?_, herror⟩
  obtain ⟨hsampler, hP⟩ := hok a ha
  exact ⟨⟨he.initialized, hsampler, he.knowledge⟩, hP⟩

theorem succeeds_draw {α : Type} {d : Random.Draw α} :
    Succeeds (Engine.Ready c) (draw d) fun a => ∃ source, (d.run source).1 = a :=
  succeeds_sample Sampler.succeeds_drawAlways

theorem succeeds_build {α : Type} {x : Building α} :
    Succeeds (Engine.Ready c) (build x) fun _ => True :=
  fun _ he => ⟨fun _ _ => ⟨⟨he.initialized, he.sampler, he.knowledge⟩, trivial⟩,
    fun _ hfailure => nomatch hfailure⟩

theorem succeeds_ensureInitialized :
    Succeeds (Engine.Ready c) ensureInitialized fun _ => True := by
  refine succeeds_bind succeeds_get fun e he => ?_
  rw [he.initialized]
  exact succeeds_pure trivial

/-! ## Seeded calls -/

theorem succeeds_seedCall {forced : Bool} :
    Succeeds (Engine.Ready c) (seedCall call forced) fun seeded =>
      seeded.resource = call.resource :=
  (succeeds_seedCall_of (fun _ _ => (succeeds_draw.imp fun _ _ => trivial).ensures)
    fun _ _ => succeeds_build.ensures).imp fun _ h => Call.resource_of_frame h

/-! ## Proposed calls -/

theorem succeeds_sampleCall {create forced : Bool} {front : Option (List Call)}
    (h : c.HasResource key) :
    Succeeds (Engine.Ready c) (sampleCall key create budget forced front) (OfferedResult c) := by
  suffices Succeeds (Engine.Ready c) (sampleCall key create budget forced front) fun _ => True from
    (this.and_always seeded_sampleCall).imp fun _ hresult call hcall =>
      (hresult.2 call hcall).resource ▸ h
  refine succeeds_bind succeeds_ensureInitialized fun _ _ => ?_
  refine succeeds_bind succeeds_get fun e _ => ?_
  extract_lets options afterCreating
  have hcreated : ∀ creating, Succeeds (Engine.Ready c) (afterCreating creating) fun _ => True := by
    intro creating
    unfold afterCreating
    extract_lets afterSampling
    have hsampled : ∀ sampled, Succeeds (Engine.Ready c) (afterSampling sampled) fun _ => True := by
      intro sampled
      cases sampled with
      | none => exact succeeds_pure trivial
      | some call =>
        refine succeeds_bind succeeds_seedCall fun seeded _ => ?_
        cases front with
        | none => exact succeeds_pure trivial
        | some calls => exact succeeds_pure trivial
    cases creating with
    | none =>
      exact succeeds_bind (succeeds_sample (Sampler.succeeds_sampleIndependent h)) fun sampled _ =>
        hsampled sampled
    | some call =>
      exact succeeds_bind (P := fun _ => True) (succeeds_pure trivial) fun sampled _ =>
        hsampled sampled
  split
  · refine succeeds_bind (succeeds_sample (Sampler.succeeds_resource h)) fun r hr => ?_
    obtain ⟨m, hm, hr⟩ := hr
    refine succeeds_bind (succeeds_sample (Sampler.succeeds_generateOneOf_map hm hr ?_))
      fun creating _ => hcreated creating
    exact fun t ht => (List.mem_filter.1 (List.mem_filter.1 ht).1).1
  · exact succeeds_bind (P := fun _ => True) (succeeds_pure trivial) fun creating _ =>
      hcreated creating

theorem succeeds_sampleAnyCall (h : c.HasResource key) :
    Succeeds (Engine.Ready c) (sampleAnyCall key budget) (OfferedResult c) := by
  suffices Succeeds (Engine.Ready c) (sampleAnyCall key budget) fun _ => True from
    (this.and_always keyed_sampleAnyCall).imp fun _ hresult call hcall => by
      have hkey : call.resource = key := hresult.2 call hcall
      exact hkey ▸ h
  refine succeeds_bind succeeds_get fun e _ => ?_
  refine succeeds_bind (succeeds_sample (Sampler.succeeds_sampleAny h)) fun sampled _ => ?_
  cases sampled with
  | none => exact succeeds_pure trivial
  | some call => exact succeeds_map succeeds_seedCall fun _ _ => trivial

theorem succeeds_proposeUnused :
    Succeeds (Engine.Ready c) (proposeUnused s) (OfferedResult c) := by
  refine succeeds_bind succeeds_get fun e he => ?_
  refine succeeds_bind succeeds_draw fun chosen hchosen => ?_
  obtain ⟨source, hchosen⟩ := hchosen
  cases chosen with
  | none => exact succeeds_pure (by simp [OfferedResult])
  | some key =>
    have hmem := (List.mem_filter.1 (Random.mem_of_choose hchosen)).1
    exact succeeds_sampleAnyCall (he.sampler.hasResource_of_mem_sampleableKeys hmem)

/-- A dependency that passes was one that might be followed. -/
theorem subset_drawLeads {leads : List Lead} : Always (drawLeads leads) (· ⊆ leads) := by
  induction leads with
  | nil => exact ensures_pure (List.Subset.refl _)
  | cons lead rest ih =>
    refine ensures_bind always_any fun passes _ => ensures_bind ih fun more hmore => ?_
    refine ensures_pure ?_
    split
    · exact List.cons_subset_cons _ hmore
    · exact List.subset_cons_of_subset _ hmore

theorem succeeds_drawLeads {leads : List Lead} :
    Succeeds (Engine.Ready c) (drawLeads leads) fun _ => True := by
  induction leads with
  | nil => exact succeeds_pure trivial
  | cons lead rest ih =>
    exact succeeds_bind succeeds_draw fun _ _ => succeeds_bind ih fun _ _ => succeeds_pure trivial

/-- The dependency that is followed is one of those that passed, if any did, and else one of all. -/
theorem mem_of_choose_passed {leads passed : List Lead} {lead : Lead} {source : Random.Source}
    (hpassed : passed ⊆ leads)
    (h : ((Random.choose (if passed.isEmpty then leads else passed)).run source).1 = some lead) :
    lead ∈ leads := by
  have hmem := Random.mem_of_choose h
  split at hmem
  · exact hmem
  · exact hpassed hmem

/-- A lead follows a relation, and outside the scenario if this is not one of a resource to itself. -/
theorem relation_of_mem_leads {e : Engine} {lead : Lead} (h : lead ∈ leads e s) :
    ∃ r ∈ e.knowledge.relationsOf lead.source, lead.target ∈ r.targets ∧
      (r.isOnSelf = true ∨ lead.target ∉ s.resourceKeys) := by
  obtain ⟨source, -, h⟩ := List.mem_flatMap.1 h
  obtain ⟨r, hr, h⟩ := List.mem_flatMap.1 h
  obtain ⟨target, htarget, rfl⟩ := List.mem_map.1 h
  obtain ⟨htarget, htest⟩ := List.mem_filter.1 htarget
  exact ⟨r, hr, htarget, by simpa using htest⟩

/-- The targets of learned dependencies are resources of the catalogue. -/
theorem hasResource_of_mem_leads {e : Engine} {lead : Lead} (he : e.Ready c)
    (h : lead ∈ leads e s) : c.HasResource lead.target := by
  obtain ⟨r, hr, htarget, -⟩ := relation_of_mem_leads h
  exact he.knowledge.target (Knowledge.isDependent_iff.2 ⟨r, hr, htarget⟩)

theorem succeeds_proposeDependency :
    Succeeds (Engine.Ready c) (proposeDependency s) fun proposed =>
      OfferedResult c (proposed.map (·.1)) := by
  refine succeeds_bind succeeds_get fun e he => ?_
  refine succeeds_bind (succeeds_drawLeads.and_always subset_drawLeads) fun passed hpassed => ?_
  refine succeeds_bind succeeds_draw fun chosen hchosen => ?_
  obtain ⟨source, hchosen⟩ := hchosen
  cases chosen with
  | none => exact succeeds_pure (by simp [OfferedResult])
  | some lead =>
    have hlead : lead ∈ leads e s := mem_of_choose_passed hpassed.2 hchosen
    refine succeeds_bind (succeeds_sampleCall (hasResource_of_mem_leads he hlead))
      fun sampled hsampled => ?_
    cases sampled with
    | none => exact succeeds_pure (by simp [OfferedResult])
    | some call => exact succeeds_pure hsampled

/-! ## Scenarios of one call -/

/-- There is a call to start with in this way. -/
def Start.IsOffered (c : Catalogue) (key : String) : Start → Prop
  | .action v => ∃ s, (Sites.ofCatalogue c).get? key = some s ∧ v ∈ s.ownVerbs
  | .creation => c.HasResource key
  | .template name => c.HasTemplate key name

theorem isOffered_of_mem_startsOn {m : ResourceModel} {r : Resource} {start : Start}
    (hm : m.InUse c) (hr : m.get? key = some r) (h : start ∈ startsOn r) : start.IsOffered c key := by
  have own : ∀ v ∈ r.ownVerbs, (Start.action v).IsOffered c key :=
    fun v hv => ⟨r.toSite, hm.site_ofCatalogue hr, hv⟩
  have filtered : ∀ {test : Verb → Bool}, start ∈ (r.ownVerbs.filter test).map .action →
      start.IsOffered c key := by
    intro test h
    obtain ⟨v, hv, rfl⟩ := List.mem_map.1 h
    exact own v (List.mem_filter.1 hv).1
  unfold startsOn at h
  simp only [List.mem_append, List.mem_singleton] at h
  rcases h with (((h | h) | rfl) | h) | h
  · exact filtered h
  · exact filtered h
  · exact hm.hasResource hr
  · exact filtered h
  · obtain ⟨name, hname, rfl⟩ := List.mem_map.1 h
    obtain ⟨t, ht, rfl⟩ := List.mem_map.1 hname
    exact hm.hasTemplate hr (List.mem_filter.1 ht).1

theorem isOffered_of_mem_allStarts {m : ResourceModel} (hm : m.InUse c) :
    ∀ start ∈ allStarts m, start.2.IsOffered c start.1 := by
  intro start h
  obtain ⟨r, hr, h⟩ := List.mem_flatMap.1 h
  obtain ⟨start, hstart, rfl⟩ := List.mem_map.1 h
  obtain ⟨key, -, hget⟩ := List.mem_filterMap.1 hr
  rw [← hm.key_eq hget] at hget
  exact isOffered_of_mem_startsOn hm hget hstart

theorem made_sampleStart {options : SamplingOptions} {start : Start} :
    Always (sampleStart key options start) (MadeResult key) := by
  cases start with
  | action v => exact ensures_map Sampler.made_sampleVerb fun call hcall => madeResult_some.2 hcall
  | creation =>
    refine ensures_bind Sampler.made_generatePostChain fun chain hchain => ensures_pure ?_
    exact fun call hcall => hchain call (Option.mem_filter_iff.1 hcall).1
  | template name =>
    exact ensures_map Sampler.made_generate fun call hcall => madeResult_some.2 hcall

theorem succeeds_sampleStart {options : SamplingOptions} {start : Start}
    (h : start.IsOffered c key) :
    Succeeds (Sampler.InUse c) (sampleStart key options start) fun result =>
      ∀ call ∈ result, call.resource = key := by
  suffices Succeeds (Sampler.InUse c) (sampleStart key options start) fun _ => True from
    (this.and_always made_sampleStart).imp fun _ hresult call hcall =>
      (hresult.2 call hcall).resource
  cases start with
  | action v =>
    obtain ⟨s, hs, hv⟩ := h
    exact succeeds_map (Sampler.succeeds_sampleVerb hs hv) fun _ _ => trivial
  | creation =>
    exact succeeds_bind (Sampler.succeeds_generatePostChain h) fun chain _ => succeeds_pure trivial
  | template name => exact succeeds_map (Sampler.succeeds_generate h) fun _ _ => trivial

theorem Start.IsOffered.hasResource {start : Start} (h : start.IsOffered c key) :
    c.HasResource key := by
  cases start with
  | action v =>
    obtain ⟨s, hs, -⟩ := h
    exact ⟨s, hs⟩
  | creation => exact h
  | template name => exact Catalogue.HasTemplate.hasResource h

theorem succeeds_sampleStarts {options : SamplingOptions} {starts : List (String × Start)}
    (h : ∀ start ∈ starts, start.2.IsOffered c start.1) :
    Succeeds (Sampler.InUse c) (sampleStarts options starts) fun calls =>
      ∀ call ∈ calls, c.HasResource call.resource := by
  induction starts with
  | nil => exact succeeds_pure (by simp)
  | cons start rest ih =>
    obtain ⟨hstart, hrest⟩ := List.forall_mem_cons.1 h
    refine succeeds_bind (succeeds_sampleStart hstart) fun result hresult => ?_
    refine succeeds_bind (ih hrest) fun more hmore => succeeds_pure fun call hcall => ?_
    rcases List.mem_append.1 hcall with hcall | hcall
    · rw [hresult call (Option.mem_toList.1 hcall)]
      exact hstart.hasResource
    · exact hmore call hcall

theorem succeeds_scenarioOf {auth : Option Auth} (h : c.HasResource call.resource) :
    Succeeds (Engine.Ready c) (scenarioOf auth call) (Scenario.Within c.HasResource) := by
  refine succeeds_bind succeeds_seedCall fun seeded hseeded => succeeds_pure ?_
  rw [Scenario.within_repair]
  refine List.forall_mem_singleton.2 ?_
  rw [hseeded]
  exact h

theorem succeeds_scenariosOf {auth : Option Auth} {calls : List Call}
    (h : ∀ call ∈ calls, c.HasResource call.resource) :
    Succeeds (Engine.Ready c) (scenariosOf auth calls) fun scenarios =>
      ∀ s ∈ scenarios, s.Within c.HasResource := by
  induction calls with
  | nil => exact succeeds_pure (by simp)
  | cons call rest ih =>
    obtain ⟨hcall, hrest⟩ := List.forall_mem_cons.1 h
    refine succeeds_bind (succeeds_scenarioOf hcall) fun s hs => ?_
    refine succeeds_bind (ih hrest) fun more hmore => succeeds_pure ?_
    exact List.forall_mem_cons.2 ⟨hs, hmore⟩

/-- **An engine that is ready makes scenarios of one call without failing**, on resources of the
catalogue. -/
theorem succeeds_adHocScenarios {auth : Option Auth} :
    Succeeds (Engine.Ready c) (adHocScenarios auth) fun scenarios =>
      ∀ s ∈ scenarios, s.Within c.HasResource := by
  refine succeeds_bind succeeds_ensureInitialized fun _ _ => ?_
  refine succeeds_bind succeeds_get fun e he => ?_
  have hstarts := isOffered_of_mem_allStarts he.sampler
  refine succeeds_bind (succeeds_sample (succeeds_sampleStarts hstarts)) fun calls hcalls => ?_
  exact succeeds_scenariosOf hcalls

/-! ## Scenarios from dependencies -/

theorem hasResource_of_canSample {e : Engine} (he : e.Ready c) (h : e.canSample key = true) :
    c.HasResource key := by
  obtain ⟨r, hr, -⟩ := (Option.any_eq_true ..).1 h
  exact he.sampler.hasResource hr

theorem succeeds_sampleTargets {targets : List String} (h : ∀ target ∈ targets, c.HasResource target) :
    Succeeds (Engine.Ready c) (sampleTargets targets budget) fun calls =>
      ∀ call ∈ calls, c.HasResource call.resource := by
  induction targets generalizing budget with
  | nil => exact succeeds_pure (by simp)
  | cons target rest ih =>
    obtain ⟨htarget, hrest⟩ := List.forall_mem_cons.1 h
    unfold sampleTargets
    split
    · exact succeeds_pure (by simp)
    · refine succeeds_bind (succeeds_sampleCall htarget) fun sampled hsampled => ?_
      cases sampled with
      | none => exact ih hrest
      | some call =>
        refine succeeds_bind (ih hrest) fun more hmore => succeeds_pure ?_
        exact List.forall_mem_cons.2 ⟨hsampled call rfl, hmore⟩

/-- **An engine that is ready composes a scenario from dependencies, or finds none**, on resources of
the catalogue. -/
theorem succeeds_relatedScenario :
    Succeeds (Engine.Ready c) relatedScenario fun result =>
      ∀ s ∈ result, s.Within c.HasResource := by
  refine succeeds_bind succeeds_ensureInitialized fun _ _ => ?_
  refine succeeds_bind succeeds_get fun e he => ?_
  refine succeeds_bind succeeds_draw fun chosen hchosen => ?_
  obtain ⟨source, hchosen⟩ := hchosen
  cases chosen with
  | none => exact succeeds_pure (by simp)
  | some key =>
    have hkey : c.HasResource key :=
      hasResource_of_canSample he (List.mem_filter.1 (Random.mem_of_choose hchosen)).2
    refine succeeds_bind (succeeds_sampleCall hkey) fun sampled hsampled => ?_
    cases sampled with
    | none => exact succeeds_pure (by simp)
    | some main =>
      have htargets : ∀ target ∈ (sampleableTargets e key).toList, c.HasResource target :=
        fun target ht => hasResource_of_canSample he (mem_sampleableTargets ht).2.1
      refine succeeds_bind (succeeds_sampleTargets htargets) fun front hfront => succeeds_pure ?_
      rintro _ ⟨⟩
      rw [Scenario.within_repair]
      unfold Scenario.Within
      rw [map_calls_foldl_append fun _ _ _ => Call.resource_of_frame Call.frame_bindAt]
      refine List.forall_mem_map.2 fun call hcall => ?_
      rcases List.mem_append.1 hcall with hcall | hcall
      · exact hfront call hcall
      · exact List.mem_singleton.1 hcall ▸ hsampled main rfl

end Composing

end RestScenario
