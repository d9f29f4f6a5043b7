import RestScenario.Proofs.Engine.Session
import RestScenario.Proofs.Engine.Starts
import RestScenario.Proofs.Lists

/-!
# Seeds cover the catalogue

The scenarios with which an exploration begins have one call each, one for each way to start
(`SeedFor`, `Composing.seeds_adHocScenarios`): every action alone, every creation chain of more than
one action, and every template of several verbs. As no way is listed twice, each of them has exactly
one scenario, and there are no others (`seeds_cover_catalogue`).
-/

namespace RestScenario

/-! ## What a call is known by -/

/-- What a call is known by: its resource, its template, and its actions by their names. -/
structure Profile where
  resource : String
  template : String
  actions : List String
deriving DecidableEq

/-- The profile of a call. -/
def Call.profile (c : Call) : Profile := ⟨c.resource, c.template.name, c.actionNames⟩

/-- The profiles of the calls. -/
def Scenario.profiles (s : Scenario) : List Profile := s.calls.map Call.profile

theorem Call.profile_of_form {call call' : Call} (h : call'.form = call.form) :
    call'.profile = call.profile := by
  obtain ⟨htemplate, h⟩ := Prod.mk.inj h
  obtain ⟨hresource, hblank⟩ := Prod.mk.inj h
  have hnames := congrArg (List.map Action.name) hblank
  rw [List.map_map, List.map_map] at hnames
  unfold profile
  rw [hresource, htemplate]
  exact congrArg _ hnames

/-! ## The creation chain as a call -/

/-- The names of the creation chain of a resource that has its own `POST`, if it takes more than
one. -/
def Catalogue.longChain? (c : Catalogue) (key : String) : Option (List String) :=
  ((Sites.ofCatalogue c).get? key).bind fun s =>
    let chain := (Sites.ofCatalogue c).chainOf s
    if s.hasAction .post && 1 < chain.length then some (chain.actions.map Action.name) else none

theorem Catalogue.one_lt_length_of_longChain? {c : Catalogue} {key : String} {names : List String}
    (h : c.longChain? key = some names) : 1 < names.length := by
  obtain ⟨s, -, h⟩ := Option.bind_eq_some_iff.1 h
  dsimp only at h
  split at h
  · rename_i hlong
    obtain rfl := Option.some.inj h
    rw [List.length_map]
    simp only [Bool.and_eq_true, decide_eq_true_eq] at hlong
    exact hlong.2
  · cases h

namespace ResourceModel.InUse

variable {c : Catalogue} {m : ResourceModel} {key : String} {r : Resource}
  {options : SamplingOptions} {source source' : Random.Source} {call : Call} {names : List String}
  (hm : m.InUse c)
include hm

theorem longChain?_eq (hr : m.get? key = some r) : c.longChain? key =
    if r.hasAction .post && 1 < r.creation.length then some (r.creation.actions.map Action.name)
    else none := by
  unfold Catalogue.longChain?
  rw [hm.site_ofCatalogue hr, hm.creation_eq hr]
  rfl

/-- Where no size is checked, the template `POST` is realized by the whole chain. -/
theorem names_of_gives_post (hread : c.IsRead) (hr : m.get? key = some r)
    (hpost : r.hasAction .post = true) (hcreate : options.create = true)
    (hcheck : options.checkSize = false)
    (h : Gives (m.build key Verb.post.name options) source call source') :
    call.actionNames = r.creation.actions.map Action.name := by
  obtain ⟨t, verbs, entry, extra, ht, hverbs, hentry, houtline, hextra⟩ :=
    of_gives_build h fun t verbs => hm.nothing_follows
  obtain ⟨r', hr', hfound⟩ := template_eq_ok ht
  have hname := hm.name_eq hr' hfound
  have hpostVerbs : t.verbs? = some [.post] := by
    unfold Template.verbs?
    rw [hname]
    decide +kernel
  obtain rfl : [Verb.post] = verbs := Option.some.inj (hpostVerbs.symm.trans hverbs)
  have hcreatable : m.sites.isCreatable r.toSite = true := by
    unfold Sites.isCreatable
    rw [hpost, Bool.true_or]
  have hcreation : r.creation = m.sites.chainOf r.toSite := by
    rw [hm.sites_eq]
    exact hm.creation_eq hr
  obtain ⟨entry', creators, hentry', hnames, -, hplan⟩ := exists_plan (hm.wellFormed hread)
    (hm.key_eq hr) hr (hm.site hr) hcreation hverbs (.inl rfl) hcreatable
  obtain rfl : entry' = entry := Except.ok.inj (hentry'.symm.trans hentry)
  have hplanned : m.plannedCreators options [.post] entry' = creators := by
    unfold plannedCreators
    rw [hcreate, hplan options]
    unfold SamplingOptions.limit
    rw [hcheck]
    rfl
  have hnothing : extra = [] := by
    rcases hextra with hnil | ⟨_, -, -, hpatch, -⟩
    · exact hnil
    · unfold Template.lists at hpatch
      rw [hname] at hpatch
      exact absurd hpatch (by decide +kernel)
  have houtlines : call.actionNames = call.outline.map Action.name := by
    unfold Call.outline Call.actionNames
    rw [List.map_map]
    rfl
  have hchain : r.creationNames t = r.creation.actions.map Action.name := by
    unfold Resource.creationNames
    rw [hverbs]
    exact List.append_nil _
  rw [houtlines, houtline, hnothing, List.append_nil, names_linkCreation, hplanned, ← hchain, hnames]
  simp only [List.map_append, List.map_reverse, List.map_map, List.map_cons, List.map_nil]
  rfl

end ResourceModel.InUse

/-! ## What each way to start makes -/

namespace Composing

variable {c : Catalogue} {key name : String} {v : Verb} {options : SamplingOptions} {start : Start}
  {auth : Option Auth} {call : Call}

/-- The call of the profile is one that the start asks for. -/
def Start.Asks (c : Catalogue) (key : String) (p : Profile) : Start → Prop
  | .action v => p = ⟨key, v.name, [v.name ++ ":" ++ key]⟩
  | .creation => ∃ names, c.longChain? key = some names ∧ p = ⟨key, Verb.post.name, names⟩
  | .template name => p.resource = key ∧ p.template = name

/-- Whether there is a call for the start. Only the creation chain may have none of its own. -/
def Start.isTaken (c : Catalogue) (key : String) : Start → Bool
  | .action _ => true
  | .creation => (c.longChain? key).isSome
  | .template _ => true

end Composing

namespace Sampler

open Composing

variable {c : Catalogue} {key name : String} {v : Verb} {options : SamplingOptions}

theorem named_generate : Ensures (InUse c) (generate key name options) fun call =>
    call.resource = key ∧ call.template.name = name := by
  refine (ensures_generate.and_always made_generate).imp fun call hcall => ?_
  obtain ⟨⟨m, source, source', hm, hbuilt⟩, hmade⟩ := hcall
  obtain ⟨r, hr, ht⟩ := ResourceModel.template_eq_ok (ResourceModel.template_build.of_gives hbuilt)
  exact ⟨hmade.resource, hm.name_eq hr ht⟩

/-- A verb is sampled as the only action, under the template that is named after it. -/
theorem profile_sampleVerb : Ensures (InUse c) (sampleVerb key v) fun call =>
    call.profile = ⟨key, v.name, [v.name ++ ":" ++ key]⟩ := by
  refine ensures_bind ensures_resource fun r hr => ?_
  obtain ⟨m, hm, hr⟩ := hr
  cases hown : r.action? v with
  | none => exact ensures_throw
  | some entry =>
    refine ensures_bind ensures_drawAlways fun a ha => ?_
    obtain ⟨source, rfl⟩ := ha
    refine ensures_bind ensures_visit fun _ _ => ensures_pure ?_
    have htemplate : ((r.templates.get? v.name).getD (.unvisited v.name (v ≠ .post) 1)).name =
        v.name := by
      cases ht : r.templates.get? v.name with
      | none => rfl
      | some t => exact hm.name_eq hr ht
    have hpath : entry.path.key = key := by
      have hmem := Sites.mem_of_action? hown
      rw [Sites.actions_eq (hm.site_ofCatalogue hr), List.mem_filter] at hmem
      simpa using hmem.2
    have hname : entry.name = v.name ++ ":" ++ key := by
      unfold Action.name
      rw [Sites.verb_of_action? hown, hpath]
    exact congrArg₂ (fun template name => (⟨key, template, [name]⟩ : Profile)) htemplate hname

/-- The chain is sampled as a whole where it takes more than one action. -/
theorem profile_generatePostChain (hread : c.IsRead) (hcreate : options.create = true)
    (hcheck : options.checkSize = false) :
    Ensures (InUse c) (generatePostChain key options) fun result =>
      result.map Call.profile =
        (c.longChain? key).map fun names => ⟨key, Verb.post.name, names⟩ := by
  refine ensures_bind ensures_resource fun r hr => ?_
  obtain ⟨m, hm, hr⟩ := hr
  split
  · rename_i hshort
    refine ensures_pure ?_
    rw [hm.longChain?_eq hr, if_neg]
    · rfl
    · simp only [Bool.or_eq_true, Bool.not_eq_true', decide_eq_true_eq] at hshort
      simp only [Bool.and_eq_true, decide_eq_true_eq, not_and, not_lt]
      exact fun hpost => hshort.resolve_left (by simp [hpost])
  · rename_i hlong
    simp only [Bool.or_eq_true, Bool.not_eq_true', decide_eq_true_eq, not_or, not_le,
      Bool.not_eq_false] at hlong
    obtain ⟨hpost, hlength⟩ := hlong
    refine ensures_map (ensures_generate.and_always made_generate) fun call hcall => ?_
    obtain ⟨⟨m', source, source', hm', hbuilt⟩, hmade⟩ := hcall
    -- visits may have come in between, and change neither the site nor its chain
    obtain ⟨r', hr'⟩ := hm'.exists_resource (hm.hasResource hr)
    have hsites : r.toSite = r'.toSite :=
      Option.some.inj ((hm.site_ofCatalogue hr).symm.trans (hm'.site_ofCatalogue hr'))
    have hpost' : r'.hasAction .post = true := hsites ▸ hpost
    have hnames := hm'.names_of_gives_post hread hr' hpost' hcreate hcheck hbuilt
    obtain ⟨found, hfound, ht⟩ :=
      ResourceModel.template_eq_ok (ResourceModel.template_build.of_gives hbuilt)
    have hcreation : r'.creation = r.creation := by
      rw [hm'.creation_eq hr', hm.creation_eq hr, hsites]
    rw [hm.longChain?_eq hr, if_pos (by simp [hpost, hlength]), Option.map_some, Option.map_some,
      ← hcreation, ← hnames, ← hmade.resource, ← hm'.name_eq hfound ht]
    rfl

end Sampler

namespace Composing

variable {c : Catalogue} {key : String} {options : SamplingOptions} {start : Start}
  {starts : List (String × Start)} {auth : Option Auth} {call : Call} {calls : List Call}

/-- The scenario is one of the start on the resource: it has one call, which the start asks for, and
every action of it carries the authentication. -/
def SeedFor (c : Catalogue) (auth : Option Auth) (start : String × Start) (s : Scenario) : Prop :=
  ∃ call, s.calls = [call] ∧ start.2.Asks c start.1 call.profile ∧ ∀ a ∈ call.actions, a.auth = auth

theorem asks_sampleStart (hread : c.IsRead) (hcreate : options.create = true) :
    Ensures (Sampler.InUse c) (sampleStart key options start) fun result =>
      List.Forall₂ (fun start call => start.2.Asks c start.1 (Call.profile call))
        ([(key, start)].filter fun start => start.2.isTaken c start.1) result.toList := by
  cases start with
  | action v =>
    refine ensures_map Sampler.profile_sampleVerb fun call hcall => ?_
    exact .cons hcall .nil
  | template name =>
    refine ensures_map Sampler.named_generate fun call hcall => ?_
    exact .cons hcall .nil
  | creation =>
    refine ensures_bind (Sampler.profile_generatePostChain hread hcreate rfl) fun chain hchain =>
      ensures_pure ?_
    cases hlong : c.longChain? key with
    | none =>
      rw [hlong, Option.map_none, Option.map_eq_none_iff] at hchain
      rw [hchain, List.filter_cons_of_neg (by simp [Start.isTaken, hlong])]
      exact .nil
    | some names =>
      rw [hlong, Option.map_some, Option.map_eq_some_iff] at hchain
      obtain ⟨call, rfl, hprofile⟩ := hchain
      have hnames : call.actionNames = names := congrArg Profile.actions hprofile
      have hlength : 1 < call.length := by
        have hlong := Catalogue.one_lt_length_of_longChain? hlong
        rwa [← hnames, Call.actionNames, List.length_map] at hlong
      rw [List.filter_cons_of_pos (by simp [Start.isTaken, hlong]),
        Option.filter_some_pos (by simpa using hlength)]
      exact .cons ⟨names, hlong, hprofile⟩ .nil

theorem asks_sampleStarts (hread : c.IsRead) (hcreate : options.create = true) :
    Ensures (Sampler.InUse c) (sampleStarts options starts) fun calls =>
      List.Forall₂ (fun start call => start.2.Asks c start.1 (Call.profile call))
        (starts.filter fun start => start.2.isTaken c start.1) calls := by
  induction starts with
  | nil => exact ensures_pure .nil
  | cons start rest ih =>
    refine ensures_bind (asks_sampleStart hread hcreate) fun result hresult =>
      ensures_bind ih fun more hmore => ensures_pure ?_
    rw [← List.singleton_append, List.filter_append]
    exact List.rel_append hresult hmore

/-- The scenario of a call keeps its profile, and has the authentication in every action. -/
theorem seed_scenarioOf : Always (scenarioOf auth call) fun s =>
    ∃ made, s.calls = [made] ∧ made.profile = call.profile ∧ ∀ a ∈ made.actions, a.auth = auth := by
  refine ensures_bind form_seedCall fun seeded hseeded => ensures_pure ?_
  have hforms : (Scenario.ofCalls [seeded] .smartWithoutDependencies).repair.calls.map Call.form =
      [seeded.form] := by
    rw [Scenario.map_calls_repair fun _ _ => rfl]
    exact congrArg ([·]) Call.form_realign
  obtain ⟨made, hmade, hform⟩ := List.map_eq_singleton_iff.1 hforms
  have hform := hform.trans hseeded
  refine ⟨made, hmade, (Call.profile_of_form hform).trans ?_, ?_⟩
  · unfold Call.profile Call.actionNames
    rw [List.map_map]
    rfl
  · have hauth := congrArg (fun f : Template × String × List Action => f.2.2.map (·.auth)) hform
    simp only [Call.form, List.map_map] at hauth
    intro a ha
    have hmem : a.auth ∈ made.actions.map ((·.auth) ∘ Action.blank) := List.mem_map.2 ⟨a, ha, rfl⟩
    rw [hauth] at hmem
    obtain ⟨_, -, heq⟩ := List.mem_map.1 hmem
    exact heq.symm

theorem seeds_scenariosOf (h : List.Forall₂ (fun start call =>
      start.2.Asks c start.1 (Call.profile call)) starts calls) :
    Always (scenariosOf auth calls) fun seeds => List.Forall₂ (SeedFor c auth) starts seeds := by
  induction h with
  | nil => exact ensures_pure .nil
  | cons hcall _ ih =>
    refine ensures_bind seed_scenarioOf fun s hs => ensures_bind ih fun more hmore =>
      ensures_pure (.cons ?_ hmore)
    obtain ⟨made, hcalls, hprofile, hauth⟩ := hs
    exact ⟨made, hcalls, hprofile ▸ hcall, hauth⟩

/-- **Each way to start on the resources of the model makes one scenario**, if there is a call for
it, in order. -/
theorem seeds_adHocScenarios {e e' : Engine} {seeds : List Scenario} (hread : c.IsRead)
    (he : e.Ready c) (h : Gives (adHocScenarios auth) e seeds e') :
    List.Forall₂ (SeedFor c auth)
      ((allStarts e.model).filter fun start => start.2.isTaken c start.1) seeds := by
  obtain ⟨_, e₁, hinitialized, h⟩ := gives_bind.1 h
  obtain rfl := gives_ensureInitialized hinitialized
  obtain ⟨_, _, hget, h⟩ := gives_bind.1 h
  obtain ⟨rfl, rfl⟩ := gives_get.1 hget
  obtain ⟨calls, e₂, hcalls, h⟩ := gives_bind.1 h
  have hinUse : e.InUse c e.settings.maxTestSize := ⟨he.sampler, rfl⟩
  have hasks := (ensures_sample (asks_sampleStarts hread rfl)).of_gives hcalls hinUse
  exact (seeds_scenariosOf hasks.2).of_gives h

/-! ## No two ways make one scenario -/

theorem Start.Asks.resource {p : Profile} (h : start.Asks c key p) : p.resource = key := by
  cases start with
  | action v => exact congrArg Profile.resource h
  | creation =>
    obtain ⟨names, -, rfl⟩ := h
    rfl
  | template name => exact h.1

/-- Templates to start with have several verbs. -/
def Start.IsProper (start : Start) : Prop :=
  ∀ name, start = .template name → Template.separator ∈ name.toList

theorem Start.isProper_of_mem {m : ResourceModel} (hm : m.InUse c)
    (h : (key, start) ∈ allStarts m) : start.IsProper := by
  rintro name rfl
  obtain ⟨r, -, hstart⟩ := (mem_allStarts hm).1 h
  obtain ⟨t, -, hmulti, rfl⟩ := template_mem_startsOn.1 hstart
  exact List.contains_iff_mem.1 hmulti

theorem separator_not_mem_name (v : Verb) : Template.separator ∉ v.name.toList := by
  cases v <;> decide

/-- What is asked for tells the way to start. -/
theorem Start.Asks.unique {p : Profile} {start' : Start} (h : start.Asks c key p)
    (h' : start'.Asks c key p) (hproper : start.IsProper) (hproper' : start'.IsProper) :
    start = start' := by
  have single : ∀ (v : Verb) {name}, (Start.template name).IsProper → v.name ≠ name := by
    rintro v _ hproper rfl
    exact separator_not_mem_name v (hproper _ rfl)
  have long : ∀ {v names}, c.longChain? key = some names → [v] ≠ names := by
    rintro v _ hlong rfl
    exact absurd (Catalogue.one_lt_length_of_longChain? hlong) (by simp)
  cases start with
  | action v =>
    obtain rfl : p = _ := h
    cases start' with
    | action v' => exact congrArg Start.action (Verb.name_injective (Profile.mk.inj h').2.1)
    | creation =>
      obtain ⟨names, hlong, heq⟩ := h'
      exact absurd (Profile.mk.inj heq).2.2 (long hlong)
    | template name => exact absurd h'.2 (single v hproper')
  | creation =>
    obtain ⟨names, hlong, rfl⟩ := h
    cases start' with
    | action v => exact absurd (Profile.mk.inj h').2.2.symm (long hlong)
    | creation => rfl
    | template name => exact absurd h'.2 (single .post hproper')
  | template name =>
    obtain ⟨rfl, rfl⟩ := h
    cases start' with
    | action v => exact absurd (congrArg Profile.template h').symm (single v hproper)
    | creation =>
      obtain ⟨names, -, heq⟩ := h'
      exact absurd (congrArg Profile.template heq).symm (single .post hproper)
    | template name' => exact congrArg Start.template h'.2

/-- A test for what a start asks for is passed by one scenario. -/
theorem countP_seeds {m : ResourceModel} {seeds : List Scenario} {test : Scenario → Bool}
    (hm : m.InUse c) (hseeds : List.Forall₂ (SeedFor c auth)
      ((allStarts m).filter fun start => start.2.isTaken c start.1) seeds)
    (hmem : (key, start) ∈ allStarts m) (htaken : start.isTaken c key = true)
    (htest : ∀ s p, s.profiles = [p] → (test s = true ↔ start.Asks c key p)) :
    seeds.countP test = 1 := by
  refine countP_eq_one_of_forall₂ hseeds ((nodup_allStarts hm).filter _)
    (List.mem_filter.2 ⟨hmem, htaken⟩) fun other hother s hs => ?_
  obtain ⟨key', start'⟩ := other
  obtain ⟨call, hcalls, hasks, -⟩ := hs
  have hprofiles : s.profiles = [call.profile] := by
    unfold Scenario.profiles
    rw [hcalls]
    rfl
  rw [htest s _ hprofiles]
  constructor
  · intro h
    obtain rfl : key' = key := hasks.resource.symm.trans h.resource
    have hproper' := Start.isProper_of_mem hm (List.mem_filter.1 hother).1
    exact congrArg (key', ·) (hasks.unique h hproper' (Start.isProper_of_mem hm hmem))
  · intro heq
    obtain ⟨rfl, rfl⟩ := Prod.mk.inj heq
    exact hasks

end Composing

/-! ## Coverage -/

/-- The profile of an action as a call of its own. -/
def Action.profile (a : Action) : Profile := ⟨a.path.key, a.verb.name, [a.name]⟩

/-- The profile of the creation chain of a resource as a call. -/
def Resource.chainProfile (r : Resource) : Profile :=
  ⟨r.key, Verb.post.name, r.creation.actions.map Action.name⟩

/-- Whether the resource has a `POST` and is not created by that alone. -/
def Resource.hasLongChain (r : Resource) : Bool := r.hasAction .post && 1 < r.creation.length

/-- Whether the scenario has one call, on a resource and under a template. -/
def Scenario.realizes (s : Scenario) (key template : String) : Bool :=
  s.profiles.map (fun p => (p.resource, p.template)) = [(key, template)]

/-- The scenarios start on everything in the catalogue and in the model of its resources. -/
structure CoversCatalogue (c : Catalogue) (m : ResourceModel) (auth : Option Auth)
    (seeds : List Scenario) : Prop where
  /-- Each has one call, and every action carries exactly the authentication. -/
  single : ∀ s ∈ seeds, ∃ call, s.calls = [call] ∧ ∀ a ∈ call.actions, a.auth = auth
  /-- Every action of the catalogue is the only one of one scenario, whose template is its verb. -/
  action : ∀ a ∈ c.actions, seeds.countP (·.profiles = [a.profile]) = 1
  /-- Every resource with its own `POST` and a longer creation has one scenario for that: the whole
  creation, in order. -/
  creation : ∀ r ∈ m.resources.values, r.hasLongChain = true →
    seeds.countP (·.profiles = [r.chainProfile]) = 1
  /-- Every template of several verbs has one scenario. -/
  template : ∀ r ∈ m.resources.values, ∀ t ∈ r.templates.values, t.isMultiVerb = true →
    seeds.countP (·.realizes r.key t.name) = 1
  /-- Scenarios on longer paths come first. -/
  deepest_first : seeds.Pairwise fun s s' => ∀ p ∈ s.profiles, ∀ p' ∈ s'.profiles,
    ∀ r r', m.get? p.resource = some r → m.get? p'.resource = some r' →
      r'.path.levels ≤ r.path.levels
  /-- There are no others. -/
  nothing_else : ∀ s ∈ seeds, (∃ a ∈ c.actions, s.profiles = [a.profile]) ∨
    ∃ r ∈ m.resources.values, (r.hasLongChain = true ∧ s.profiles = [r.chainProfile]) ∨
      ∃ t ∈ r.templates.values, t.isMultiVerb = true ∧ s.realizes r.key t.name = true

section Coverage

variable {c : Catalogue} {m : ResourceModel} {auth : Option Auth} {seeds : List Scenario}
  {key : String} {r : Resource}

theorem Composing.SeedFor.profiles {start : String × Composing.Start} {s : Scenario}
    (h : Composing.SeedFor c auth start s) :
    ∃ p, s.profiles = [p] ∧ start.2.Asks c start.1 p := by
  obtain ⟨call, hcalls, hasks, -⟩ := h
  refine ⟨call.profile, ?_, hasks⟩
  unfold Scenario.profiles
  rw [hcalls]
  rfl

theorem ResourceModel.InUse.longChain?_eq_some_iff (hm : m.InUse c) (hr : m.get? key = some r)
    {names : List String} : c.longChain? key = some names ↔
      r.hasLongChain = true ∧ r.creation.actions.map Action.name = names := by
  unfold Resource.hasLongChain
  rw [hm.longChain?_eq hr, Option.ite_none_right_eq_some, Option.some.injEq]

/-- One scenario for each way to start covers the catalogue. -/
theorem coversCatalogue_of_seeds (hm : m.InUse c)
    (h : List.Forall₂ (Composing.SeedFor c auth) ((Composing.allStarts m).filter fun start =>
      start.2.isTaken c start.1) seeds) : CoversCatalogue c m auth seeds where
  single s hs := by
    obtain ⟨_, -, call, hcalls, -, hauth⟩ := exists_mem_of_forall₂ h hs
    exact ⟨call, hcalls, hauth⟩
  action a ha := by
    obtain ⟨s, hs, hmem⟩ := Sites.offers_of_mem ha
    obtain ⟨r, hr⟩ := hm.exists_resource ⟨s, hs⟩
    obtain rfl : r.toSite = s := Option.some.inj ((hm.site_ofCatalogue hr).symm.trans hs)
    have hstart := Composing.action_mem_startsOn.2 (List.mem_map_of_mem (f := (·.verb)) hmem)
    refine Composing.countP_seeds hm h ((Composing.mem_allStarts hm).2 ⟨r, hr, hstart⟩) rfl ?_
    intro s p hp
    rw [hp, decide_eq_true_eq, List.singleton_inj]
    rfl
  creation r hr hlong := by
    obtain ⟨key, hr⟩ := SortedMap.mem_values_iff.1 hr
    have hchain := (hm.longChain?_eq_some_iff hr).2 ⟨hlong, rfl⟩
    refine Composing.countP_seeds hm h
      ((Composing.mem_allStarts hm).2 ⟨r, hr, Composing.creation_mem_startsOn⟩)
      (congrArg Option.isSome hchain) ?_
    intro s p hp
    rw [hp, decide_eq_true_eq, List.singleton_inj]
    unfold Resource.chainProfile
    rw [hm.key_eq hr]
    constructor
    · exact fun heq => ⟨_, hchain, heq⟩
    · rintro ⟨names, hnames, heq⟩
      obtain rfl := Option.some.inj (hchain.symm.trans hnames)
      exact heq
  template r hr t ht hmulti := by
    obtain ⟨key, hr⟩ := SortedMap.mem_values_iff.1 hr
    have hstart := Composing.template_mem_startsOn.2 ⟨t, ht, hmulti, rfl⟩
    refine Composing.countP_seeds hm h ((Composing.mem_allStarts hm).2 ⟨r, hr, hstart⟩) rfl ?_
    intro s p hp
    unfold Scenario.realizes
    rw [hp, decide_eq_true_eq, hm.key_eq hr]
    simp [Composing.Start.Asks]
  deepest_first := by
    refine pairwise_of_forall₂ h ((Composing.pairwise_levels_allStarts hm).filter _) ?_
    intro start start' s s' hs hs' hlevels p hp p' hp' r r' hr hr'
    obtain ⟨q, hq, hasks⟩ := hs.profiles
    obtain ⟨q', hq', hasks'⟩ := hs'.profiles
    obtain rfl : p = q := List.mem_singleton.1 (hq ▸ hp)
    obtain rfl : p' = q' := List.mem_singleton.1 (hq' ▸ hp')
    rw [hasks.resource] at hr
    rw [hasks'.resource] at hr'
    exact hlevels r r' hr hr'
  nothing_else s hs := by
    obtain ⟨⟨key, start⟩, hmem, hseed⟩ := exists_mem_of_forall₂ h hs
    obtain ⟨r, hr, hstart⟩ := (Composing.mem_allStarts hm).1 (List.mem_filter.1 hmem).1
    have hvalue := SortedMap.mem_values_iff.2 ⟨key, hr⟩
    obtain ⟨p, hp, hasks⟩ := hseed.profiles
    rw [hp]
    cases start with
    | action v =>
      obtain ⟨a, ha, rfl⟩ := List.mem_map.1 (Composing.action_mem_startsOn.1 hstart)
      rw [Sites.actions_eq (hm.site_ofCatalogue hr), List.mem_filter, decide_eq_true_eq] at ha
      obtain ⟨ha, rfl⟩ := ha
      exact .inl ⟨a, ha, congrArg ([·]) hasks⟩
    | creation =>
      obtain ⟨names, hnames, rfl⟩ := hasks
      obtain ⟨hlong, rfl⟩ := (hm.longChain?_eq_some_iff hr).1 hnames
      refine .inr ⟨r, hvalue, .inl ⟨hlong, ?_⟩⟩
      unfold Resource.chainProfile
      rw [hm.key_eq hr]
    | template name =>
      obtain ⟨t, ht, hmulti, rfl⟩ := Composing.template_mem_startsOn.1 hstart
      refine .inr ⟨r, hvalue, .inr ⟨t, ht, hmulti, ?_⟩⟩
      unfold Scenario.realizes
      rw [hp, hm.key_eq hr]
      exact decide_eq_true (congrArg₂ (fun key name => [(key, name)]) hasks.1 hasks.2)

/-- **Seeds cover the catalogue.** At any time of a session, with any accepted settings, catalogue
and database, the engine makes the scenarios of one call without failing. Each action of the
catalogue has one, alone under its verb; each resource with its own `POST` and a creation of more
than one action has one that is the whole creation, whatever the budget; each template of several
verbs has one. Those on longer paths come first, there are no others, and every action carries
exactly the authentication that was given. -/
theorem seeds_cover_catalogue {settings : Settings} {e : Engine} {pool : List Scenario}
    (h : Session settings c e pool) (hread : c.IsRead) (auth : Option Auth) :
    ∃ seeds e', Gives (Composing.adHocScenarios auth) e seeds e' ∧
      CoversCatalogue c e.model auth seeds := by
  obtain ⟨hready, -⟩ := h.ready
  obtain ⟨seeds, e', hmade, -⟩ := Composing.succeeds_adHocScenarios.exists_gives hready
  exact ⟨seeds, e', hmade,
    coversCatalogue_of_seeds hready.sampler (Composing.seeds_adHocScenarios hread hready hmade)⟩

end Coverage

namespace Sample

/-- Settings under which a scenario may hold one action. -/
def tight : Settings := { Settings.minimal with maxTestSize := 1 }

/-- An engine of these settings that took up the shop, without a database. -/
def tightShop : Engine :=
  ((((Engine.ofSettings tight).toOption).getD idle).load shop none).toOption.getD idle

end Sample

open Sample in
/-- Orders of the shop are created by two actions, and one scenario has both of them, although only
one fits the budget. -/
theorem tight_shop_creates_orders : Session tight shop tightShop [] ∧
    ∃ seeds e', Gives (Composing.adHocScenarios none) tightShop seeds e' ∧
      CoversCatalogue shop tightShop.model none seeds ∧
      ∃ s ∈ seeds, s.actionNames = ["POST:/users", "POST:/users/\x7bid\x7d/orders"] := by
  have hnew : Engine.ofSettings tight = .ok ((Engine.ofSettings tight).toOption.getD idle) :=
    eq_ok_of_isSome_toOption idle (by decide +kernel)
  have hload : ((Engine.ofSettings tight).toOption.getD idle).load shop none = .ok tightShop :=
    eq_ok_of_isSome_toOption idle (by decide +kernel)
  have session : Session tight shop tightShop [] := .opened hnew hload
  obtain ⟨seeds, e', hmade, covers⟩ := seeds_cover_catalogue session isRead_shop none
  refine ⟨session, seeds, e', hmade, covers, ?_⟩
  have horders : (tightShop.model.get? "/users/\x7bid\x7d/orders").map
      (fun r => (r.hasLongChain, r.chainProfile.actions)) =
        some (true, ["POST:/users", "POST:/users/\x7bid\x7d/orders"]) := by decide +kernel
  obtain ⟨r, hr, heq⟩ := Option.map_eq_some_iff.1 horders
  obtain ⟨hlong, hchain⟩ := Prod.mk.inj heq
  have hone := covers.creation r (SortedMap.mem_values_iff.2 ⟨_, hr⟩) hlong
  obtain ⟨s, hs, hprofile⟩ := List.countP_pos_iff.1 (hone ▸ Nat.one_pos)
  obtain ⟨call, hcalls, -⟩ := covers.single s hs
  have hnames : s.profiles = [r.chainProfile] := of_decide_eq_true hprofile
  unfold Scenario.profiles at hnames
  rw [hcalls, List.map_cons, List.map_nil, List.singleton_inj] at hnames
  refine ⟨s, hs, ?_⟩
  unfold Scenario.actionNames
  rw [hcalls, List.flatMap_singleton, ← hchain, ← hnames]
  rfl

end RestScenario
