import RestScenario.Proofs.Resource.Offered
import RestScenario.Proofs.Sampling.Sampled

/-!
# Every template is realized

A template that a catalogue has is realized whenever it is asked for: each of its verbs has an
action, and a template that creates has a creator to aim at (`ResourceModel.succeeds_build`). So a
sampler fails on no key and no name that it took from its own model, however often it was used
before. Which template or action is chosen depends on random words; that there is one does not.
-/

namespace RestScenario

open RestScenario.Random

theorem Site.exists_action {s : Site} {v : Verb} (h : v ∈ s.ownVerbs) :
    ∃ a, s.action? v = some a := by
  obtain ⟨a, ha, hv⟩ := List.mem_map.1 h
  exact Option.isSome_iff_exists.1 (List.find?_isSome.2 ⟨a, ha, by simpa using hv⟩)

/-! ## Building -/

namespace ResourceModel

variable {c : Catalogue} {m : ResourceModel} {key name : String} {r : Resource} {t : Template}
  {options : SamplingOptions} {target : Action} {v : Verb}

theorem exists_actionOf (hr : m.get? key = some r) (hv : v ∈ r.ownVerbs) :
    ∃ a, m.actionOf key v = .ok a := by
  obtain ⟨a, ha⟩ := r.toSite.exists_action hv
  refine ⟨a, ?_⟩
  unfold actionOf
  rw [resource_eq hr]
  simp only [bind, Except.bind, ha]

/-- A creatable resource has a creating action to aim at. -/
theorem InUse.exists_creator (hm : m.InUse c) (hr : m.get? key = some r)
    (hcreatable : m.sites.isCreatable r.toSite = true) : ∃ a, m.targetOf key [.post] = .ok a := by
  have hself : m.sites.get? r.toSite.path.key = some r.toSite := by
    rw [show r.toSite.path.key = key from hm.key_eq hr]
    exact hm.site hr
  obtain ⟨a, ha⟩ := Sites.exists_chainStart hself hcreatable
  have hstart : (r.action? .post).or (m.sites.creatorsFor r.path "").head? = some a := ha
  refine ⟨a, ?_⟩
  show (m.resource key >>= _) = _
  rw [resource_eq hr]
  simp only [bind, Except.bind, hstart]

/-- A template in use lists verbs and has a target. -/
theorem InUse.exists_target (hm : m.InUse c) (ht : m.template key name = .ok t) :
    ∃ verbs entry, t.verbs? = some verbs ∧ m.targetOf key verbs = .ok entry := by
  obtain ⟨r, hr, ht⟩ := template_eq_ok ht
  obtain ⟨-, ⟨v, hown, hv, hverbs, -⟩ | ⟨rest, hrest, hverbs, -, hcreatable⟩⟩ := hm.template hr ht
  · obtain ⟨a, ha⟩ := exists_actionOf hr hown
    have hfind : [v].find? (· ≠ .post) = some v := by simp [hv]
    refine ⟨[v], a, hverbs, ?_⟩
    unfold targetOf
    rw [hfind]
    exact ha
  · rcases hrest with rfl | ⟨v, hown, hv, rfl⟩
    · obtain ⟨a, ha⟩ := hm.exists_creator hr hcreatable
      exact ⟨[.post], a, hverbs, ha⟩
    · obtain ⟨a, ha⟩ := exists_actionOf hr hown
      have hfind : [Verb.post, v].find? (· ≠ .post) = some v := by simp [hv]
      refine ⟨[.post, v], a, hverbs, ?_⟩
      unfold targetOf
      rw [hfind]
      exact ha

theorem succeeds_followUp (h : ∃ a, m.actionOf key v = .ok a) :
    Succeeds (fun _ => True) (m.followUp key target v) fun _ => True := by
  obtain ⟨a, ha⟩ := h
  refine succeeds_bind (succeeds_liftExcept ha) fun a _ => ?_
  exact succeeds_bind succeeds_liftState fun drawn _ => succeeds_pure trivial

/-- **A template of the catalogue is realized**, whatever the request and the random words. -/
theorem succeeds_build (hm : m.InUse c) (h : c.HasTemplate key name) :
    Succeeds (fun _ => True) (m.build key name options) fun _ => True := by
  obtain ⟨r, t, hr, ht⟩ := hm.exists_template h
  have ht := template_eq hr ht
  obtain ⟨verbs, entry, hverbs, hentry⟩ := hm.exists_target ht
  unfold build
  refine succeeds_bind (succeeds_liftExcept ht) ?_
  rintro _ rfl
  rw [hverbs]
  refine succeeds_bind (succeeds_pure (P := (verbs = ·)) rfl) ?_
  rintro _ rfl
  refine succeeds_bind (succeeds_liftExcept hentry) fun entry _ => ?_
  refine succeeds_bind succeeds_liftState fun drawn _ => ?_
  split
  refine succeeds_bind succeeds_liftState fun posts _ => ?_
  rw [hm.nothing_follows ht hverbs]
  refine succeeds_bind (P := fun _ => True) (succeeds_pure trivial) fun rest _ => ?_
  refine succeeds_bind succeeds_liftState fun wanted hwanted => ?_
  obtain ⟨source, hwanted⟩ := hwanted
  cases wanted with
  | false =>
    exact succeeds_bind (P := fun _ => True) (succeeds_pure trivial) fun _ _ => succeeds_pure trivial
  | true =>
    -- a further `PATCH` is wanted only where the template lists one
    obtain ⟨hcreating, hpatch, -⟩ :=
      of_gives_wantsExtraPatch (gives_liftState_iff.2 (Prod.ext hwanted rfl)) rfl
    have hfound := hm.actionOf_patch ht hverbs hentry hcreating hpatch
    refine succeeds_bind (P := fun _ => True) ?_ fun last _ => succeeds_pure trivial
    refine succeeds_bind (succeeds_followUp ⟨_, hfound⟩) fun a _ => ?_
    exact succeeds_bind (P := fun _ => True) (succeeds_pure trivial) fun _ _ => succeeds_pure trivial

end ResourceModel

/-! ## Sampling -/

namespace Sampler

variable {c : Catalogue} {key name : String} {options : SamplingOptions} {names : List String}

theorem succeeds_draw {α : Type} {d : Drawing α} {P : α → Prop}
    (h : Succeeds (fun _ => True) d P) : Succeeds (InUse c) (draw d) P := by
  intro s hs
  obtain ⟨hok, herror⟩ := h s.source trivial
  exact ⟨fun a ha => ⟨hs, (hok a ha).2⟩, herror⟩

theorem succeeds_drawAlways {α : Type} {d : Draw α} :
    Succeeds (InUse c) (drawAlways d) fun a => ∃ source, (d.run source).1 = a :=
  succeeds_draw succeeds_liftState

theorem succeeds_resource (h : c.HasResource key) :
    Succeeds (InUse c) (resource key) fun r =>
      ∃ m : ResourceModel, m.InUse c ∧ m.get? key = some r := by
  refine succeeds_bind succeeds_get fun s hs => ?_
  obtain ⟨r, hr⟩ := ResourceModel.InUse.exists_resource hs h
  refine (succeeds_liftExcept (ResourceModel.resource_eq hr)).imp ?_
  rintro _ rfl
  exact ⟨s.model, hs, hr⟩

theorem succeeds_visit : Succeeds (InUse c) (visit key name) fun _ => True :=
  fun _ hs => ⟨fun _ _ => ⟨ResourceModel.InUse.visit hs, trivial⟩, fun _ he => nomatch he⟩

theorem succeeds_generate (h : c.HasTemplate key name) :
    Succeeds (InUse c) (generate key name options) fun _ => True := by
  refine succeeds_bind succeeds_get fun s hs => ?_
  refine succeeds_bind (succeeds_draw (ResourceModel.succeeds_build hs h)) fun call _ => ?_
  exact succeeds_bind succeeds_visit fun _ _ => succeeds_pure trivial

theorem succeeds_generateOneOf (h : ∀ name ∈ names, c.HasTemplate key name) :
    Succeeds (InUse c) (generateOneOf key names options) fun _ => True := by
  refine succeeds_bind succeeds_drawAlways fun chosen hchosen => ?_
  cases chosen with
  | none => exact succeeds_pure trivial
  | some name =>
    obtain ⟨source, hchosen⟩ := hchosen
    exact succeeds_map (succeeds_generate (h name (mem_of_choose hchosen))) fun _ _ => trivial

/-- Names of templates of a resource are names of templates of the catalogue. -/
theorem succeeds_generateOneOf_map {m : ResourceModel} {r : Resource} {ts : List Template}
    (hm : m.InUse c) (hr : m.get? key = some r) (hts : ∀ t ∈ ts, t ∈ r.templates.values) :
    Succeeds (InUse c) (generateOneOf key (ts.map (·.name)) options) fun _ => True := by
  refine succeeds_generateOneOf fun name hname => ?_
  obtain ⟨t, ht, rfl⟩ := List.mem_map.1 hname
  exact hm.hasTemplate hr (hts t ht)

theorem succeeds_sampleVerb {s : Site} {v : Verb} (hs : (Sites.ofCatalogue c).get? key = some s)
    (hv : v ∈ s.ownVerbs) : Succeeds (InUse c) (sampleVerb key v) fun _ => True := by
  refine succeeds_bind (succeeds_resource ⟨s, hs⟩) fun r hr => ?_
  obtain ⟨m, hm, hr⟩ := hr
  obtain rfl : s = r.toSite := Option.some.inj (hs.symm.trans (hm.site_ofCatalogue hr))
  obtain ⟨entry, hentry⟩ := r.toSite.exists_action hv
  rw [hentry]
  refine succeeds_bind succeeds_drawAlways fun a _ => ?_
  exact succeeds_bind succeeds_visit fun _ _ => succeeds_pure trivial

theorem succeeds_sampleOneAction (h : c.HasResource key) :
    Succeeds (InUse c) (sampleOneAction key) fun _ => True := by
  refine succeeds_bind (succeeds_resource h) fun r hr => ?_
  obtain ⟨m, hm, hr⟩ := hr
  refine succeeds_bind succeeds_drawAlways fun chosen hchosen => ?_
  obtain ⟨source, hchosen⟩ := hchosen
  have hsome : ∃ a, ((choose r.actions).run source).1 = some a :=
    exists_of_choose (hm.actions_ne_nil hr)
  obtain ⟨a, ha⟩ := hsome
  obtain rfl : some a = chosen := ha.symm.trans hchosen
  exact succeeds_sampleVerb (hm.site_ofCatalogue hr) (List.mem_map_of_mem (mem_of_choose ha))

theorem succeeds_sampleAny (h : c.HasResource key) :
    Succeeds (InUse c) (sampleAny key options) fun _ => True := by
  refine succeeds_bind (succeeds_resource h) fun r hr => ?_
  obtain ⟨m, hm, hr⟩ := hr
  dsimp only
  split
  · exact succeeds_pure trivial
  · refine succeeds_generateOneOf_map hm hr fun t ht => ?_
    exact (List.mem_filter.1 (List.mem_filter.1 ht).1).1

theorem succeeds_sampleIndependent (h : c.HasResource key) :
    Succeeds (InUse c) (sampleIndependent key options) fun _ => True := by
  refine succeeds_bind (succeeds_resource h) fun r hr => ?_
  obtain ⟨m, hm, hr⟩ := hr
  split
  · exact succeeds_sampleAny h
  · refine succeeds_generateOneOf_map hm hr fun t ht => ?_
    exact (List.mem_filter.1 (List.mem_filter.1 ht).1).1

theorem succeeds_generatePostChain (h : c.HasResource key) :
    Succeeds (InUse c) (generatePostChain key options) fun _ => True := by
  refine succeeds_bind (succeeds_resource h) fun r hr => ?_
  obtain ⟨m, hm, hr⟩ := hr
  split
  · exact succeeds_pure trivial
  · rename_i hchain
    have hpost : r.hasAction .post = true := by
      simp only [Bool.or_eq_true, Bool.not_eq_true', not_or, Bool.not_eq_false] at hchain
      exact hchain.1
    exact succeeds_map (succeeds_generate (hm.hasTemplate_post hr hpost)) fun _ _ => trivial

theorem succeeds_generateAnother {call : Call} (h : c.HasResource call.resource) :
    Succeeds (InUse c) (generateAnother call options) fun _ => True := by
  refine succeeds_bind (succeeds_resource h) fun r hr => ?_
  obtain ⟨m, hm, hr⟩ := hr
  exact succeeds_generateOneOf_map hm hr fun t ht => (List.mem_filter.1 ht).1

end Sampler

end RestScenario
