import RestScenario.Proofs.Resource.Complete
import RestScenario.Proofs.Sampling.CreatingCalls
import RestScenario.Proofs.Sampling.Realized

/-!
# What the status of a creation tells

A call that creates reports how its creation ended. The plan of a creation asks for room before it
looks for a creator. A complete chain takes one search less than the template has actions, so a budget
of that size is enough and the creation succeeds. An incomplete chain takes one search more, the one
that finds nothing: only a budget above the size of the template lets the plan find out what is missing
(`creation_status_tells_of_chain`).

With a budget of exactly that size the call has all the actions that it could ever have, and still
reports that the budget was too small (`lone_creation_reports_small_budget`).
-/

namespace RestScenario

/-! ## Endings by budget -/

namespace SamplingOptions

variable {options : SamplingOptions} {planned searches : Nat} {complete : Bool}

theorem ending_eq_of_short (hcheck : options.checkSize = true) (hsearches : 0 < searches)
    (hshort : options.budget < planned + searches) :
    options.ending planned searches complete = .notEnoughLength := by
  unfold ending
  rw [if_pos (by simp [hcheck, hsearches, hshort])]

theorem ending_eq_of_room (hroom : planned + searches ≤ options.budget) :
    options.ending planned searches complete =
      if complete then .created else .notFoundDependent := by
  unfold ending
  rw [if_neg (by simp [hroom])]

theorem short_of_ending (h : options.ending planned searches complete = .notEnoughLength) :
    options.budget < planned + searches := by
  by_contra hroom
  rw [ending_eq_of_room (Nat.not_lt.1 hroom)] at h
  cases complete <;> contradiction

end SamplingOptions

/-! ## The status of a built call -/

namespace ResourceModel

variable {c : Catalogue} {m : ResourceModel} {key name : String} {r : Resource} {t : Template}
  {options : SamplingOptions} {source source' : Random.Source} {call : Call}

theorem InUse.of_creating (hm : m.InUse c) (hr : m.get? key = some r)
    (ht : r.templates.get? name = some t) (hname : "POST".toList <+: name.toList) :
    m.sites.isCreatable r.toSite = true ∧
      ∃ rest : List Verb, (rest = [] ∨ ∃ v ∈ r.ownVerbs, v ≠ .post ∧ rest = [v]) ∧
        t.verbs? = some (.post :: rest) ∧ t.size = rest.length + 1 + (r.creation.length - 1) := by
  rw [hm.sites_eq]
  obtain ⟨built, visits, hbuilt, rfl⟩ := hm
  obtain ⟨-, -, htemplates⟩ := exists_site_of_visitAll visits hbuilt hr
  obtain ⟨asBuilt, hasBuilt, huncounted⟩ := htemplates name t ht
  obtain ⟨hsameName, -, hsize, -⟩ := Template.mk.inj huncounted
  have hverbs : asBuilt.verbs? = t.verbs? := congrArg Template.parseName? hsameName
  rw [← hverbs, ← hsize]
  exact Templates.of_creating hasBuilt hname

/-- **The status of a call that creates** is a matter of its size, its budget and the chain. -/
theorem status_of_gives_build (hm : m.InUse c) (hread : c.IsRead) (hr : m.get? key = some r)
    (ht : r.templates.get? name = some t) (hname : "POST".toList <+: name.toList)
    (hcreate : options.create = true) (h : Gives (m.build key name options) source call source') :
    1 ≤ t.size ∧ call.status = options.ending 1
      (t.size - 1 + if r.creation.isComplete then 0 else 1) r.creation.isComplete := by
  obtain ⟨hcreatable, rest, hrest, hverbs, hsize⟩ := hm.of_creating hr ht hname
  have hcreation : r.creation = m.sites.chainOf r.toSite := by
    rw [hm.sites_eq]
    exact hm.creation_eq hr
  obtain ⟨entry, creators, hentry, -, hlength, hplan⟩ := exists_aim (hm.wellFormed hread)
    (hm.key_eq hr) hr (hm.site hr) hcreation hverbs hrest hcreatable
  obtain ⟨p, hp⟩ := exists_parts h
  obtain rfl : t = p.template := Except.ok.inj ((template_eq hr ht).symm.trans hp.template)
  have hlisted : p.verbs = .post :: rest := Option.some.inj (hp.verbs.symm.trans hverbs)
  obtain rfl : entry = p.entry := Except.ok.inj (hentry.symm.trans (hlisted ▸ hp.entry))
  have hstatus : call.status = (creationPlan m.sites options p.entry 1).2 := by
    rw [hp.call_eq]
    show m.plannedStatus options p.verbs p.entry = _
    unfold plannedStatus
    rw [hlisted, if_pos (by simp [hcreate])]
  have hcreators : p.template.size = creators.length + 1 := hsize.trans hlength.symm
  rw [hstatus, hplan, hcreators]
  exact ⟨Nat.le_add_left 1 _, rfl⟩

end ResourceModel

/-! ## Sampled calls -/

namespace Sampler

/-- A generated call was built from the model of the sampler. -/
theorem exists_gives_build {s s' : Sampler} {key name : String} {options : SamplingOptions}
    {call : Call} (h : Gives (generate key name options) s call s') :
    ∃ source', Gives (s.model.build key name options) s.source call source' := by
  obtain ⟨s₁, s₂, hget, h⟩ := gives_bind.1 h
  obtain ⟨rfl, rfl⟩ := gives_get.1 hget
  obtain ⟨built, s₃, hdraw, h⟩ := gives_bind.1 h
  obtain ⟨_, s₄, -, h⟩ := gives_bind.1 h
  obtain ⟨rfl, -⟩ := gives_pure.1 h
  exact ⟨_, of_gives_draw hdraw⟩

end Sampler

/-- **The status of a creation tells of its chain** where the budget is above the size of the template.
Take a template of a resource whose name starts with `POST`. From any random words it is realized. If
the creation chain of the resource is complete, a budget of the size of the template is enough for the
status to be `Created`. If it is incomplete, the status is `NotFoundDependent` for any larger budget; for
a budget of that size it is `NotEnoughLength`, as for any smaller one. In no other case does a budget of
at least that size count as too small. -/
theorem creation_status_tells_of_chain {c : Catalogue} {s : Sampler} {key name : String}
    {r : Resource} {t : Template} (options : SamplingOptions) (hread : c.IsRead) (hs : s.InUse c)
    (hr : s.model.get? key = some r) (ht : r.templates.get? name = some t)
    (hname : "POST".toList <+: name.toList) (hcreate : options.create = true)
    (hcheck : options.checkSize = true) :
    Yields (Sampler.generate key name options) s fun call =>
      (r.creation.isComplete = true → t.size ≤ options.budget → call.status = .created) ∧
      (r.creation.isComplete = false → t.size < options.budget →
        call.status = .notFoundDependent) ∧
      (r.creation.isComplete = false → t.size = options.budget → call.status = .notEnoughLength) ∧
      (1 ≤ options.budget → options.budget < t.size → call.status = .notEnoughLength) ∧
      (call.status = .notEnoughLength → options.budget < t.size ∨
        r.creation.isComplete = false ∧ t.size = options.budget) := by
  have hm : s.model.InUse c := hs
  have htemplate : c.HasTemplate key name := by
    have hfound := hm.hasTemplate hr (SortedMap.mem_values_iff.2 ⟨name, ht⟩)
    rwa [hm.name_eq hr ht] at hfound
  obtain ⟨call, s', hcall, -⟩ := (Sampler.succeeds_generate htemplate).exists_gives hs
  obtain ⟨source', hbuilt⟩ := Sampler.exists_gives_build hcall
  obtain ⟨hsize, hstatus⟩ :=
    ResourceModel.status_of_gives_build hm hread hr ht hname hcreate hbuilt
  refine ⟨call, s', hcall, ?_⟩
  cases hcomplete : r.creation.isComplete with
  | true =>
    have hstatus : call.status = options.ending 1 (t.size - 1) true := by
      simpa [hcomplete] using hstatus
    refine ⟨fun _ hroom => ?_, by simp, by simp, fun hbudget hshort => ?_, fun hshort => .inl ?_⟩
    · rw [hstatus, SamplingOptions.ending_eq_of_room (by omega), if_pos rfl]
    · rw [hstatus, SamplingOptions.ending_eq_of_short hcheck (by omega) (by omega)]
    · have hbudget := SamplingOptions.short_of_ending (hstatus.symm.trans hshort)
      omega
  | false =>
    -- the search that finds nothing comes on top
    have hstatus : call.status = options.ending 1 t.size false := by
      simpa [hcomplete, hsize] using hstatus
    refine ⟨by simp, fun _ hroom => ?_, fun _ hexact => ?_, fun _ hshort => ?_, fun hshort => ?_⟩
    · rw [hstatus, SamplingOptions.ending_eq_of_room (by omega)]
      rfl
    · rw [hstatus, SamplingOptions.ending_eq_of_short hcheck hsize (by omega)]
    · rw [hstatus, SamplingOptions.ending_eq_of_short hcheck hsize (by omega)]
    · have hbudget := SamplingOptions.short_of_ending (hstatus.symm.trans hshort)
      by_cases hexact : t.size = options.budget
      · exact .inr ⟨rfl, hexact⟩
      · exact .inl (by omega)

open Sample in
theorem order_created_and_read_with_budget_three :
    Yields (Sampler.generate "/users/\x7bid\x7d/orders" "POST-GET" (.ofBudget 3))
      ⟨shopModel, ⟨fun _ => 0, 0, 0⟩⟩ fun call => call.status = .created := by
  have hs : Sampler.InUse shop ⟨shopModel, ⟨fun _ => 0, 0, 0⟩⟩ :=
    ResourceModel.inUse_of_ofCatalogue (eq_ok_of_isSome_toOption .empty (by decide +kernel))
  have horders : (shopModel.get? "/users/\x7bid\x7d/orders").map
      (fun r => (r.templates.get? "POST-GET", r.creation.isComplete)) =
        some (some createAndRead, true) := by decide +kernel
  obtain ⟨r, hr, heq⟩ := Option.map_eq_some_iff.1 horders
  obtain ⟨ht, hcomplete⟩ := Prod.mk.inj heq
  obtain ⟨call, s', hcall, hcreated, -⟩ := creation_status_tells_of_chain (.ofBudget 3) isRead_shop hs
    hr ht (by decide) rfl rfl
  exact ⟨call, s', hcall, hcreated hcomplete (by decide)⟩

namespace Sample

/-- Orders of users are created, users are not. -/
def ordersAlone : Catalogue :=
  ⟨[⟨.post, ⟨[.literal "users", .var "id", .literal "orders"]⟩, [], false, none, none⟩]⟩

theorem isRead_ordersAlone : ordersAlone.IsRead := by
  intro a ha
  obtain rfl := List.mem_singleton.1 ha
  exact ⟨"/users/\x7bid\x7d/orders", rfl⟩

/-- The resource model of the orders, and random words. -/
def ordersSampler : Sampler :=
  ⟨((ResourceModel.ofCatalogue ordersAlone).toOption).getD .empty, ⟨fun _ => 0, 0, 0⟩⟩

theorem inUse_ordersSampler : ordersSampler.InUse ordersAlone :=
  ResourceModel.inUse_of_ofCatalogue (eq_ok_of_isSome_toOption .empty (by decide +kernel))

end Sample

open Sample in
/-- Nothing creates the user of an order. The template `POST` has one action and gets it, and is still
reported as too long for a budget of one. -/
theorem lone_creation_reports_small_budget :
    (ordersAlone.IsRead ∧ ordersSampler.InUse ordersAlone) ∧
      (∃ r t, ordersSampler.model.get? "/users/\x7bid\x7d/orders" = some r ∧
        r.templates.get? "POST" = some t ∧ r.creation.isComplete = false ∧ t.size = 1) ∧
      ∃ call s', Gives (Sampler.generate "/users/\x7bid\x7d/orders" "POST" (.ofBudget 1))
          ordersSampler call s' ∧
        call.actionNames = ["POST:/users/\x7bid\x7d/orders"] ∧
        call.status = .notEnoughLength ∧ call.status ≠ .notFoundDependent := by
  have horders : (ordersSampler.model.get? "/users/\x7bid\x7d/orders").map
      (fun r => ((r.templates.get? "POST").map (·.size), r.creation.isComplete)) =
        some (some 1, false) := by decide +kernel
  have hrun : ((Sampler.generate "/users/\x7bid\x7d/orders" "POST" (.ofBudget 1)).run
      ordersSampler).1.toOption.map (fun call => (call.actionNames, call.status)) =
        some (["POST:/users/\x7bid\x7d/orders"], .notEnoughLength) := by decide +kernel
  obtain ⟨r, hr, heq⟩ := Option.map_eq_some_iff.1 horders
  obtain ⟨htemplate, hincomplete⟩ := Prod.mk.inj heq
  obtain ⟨t, ht, hsize⟩ := Option.map_eq_some_iff.1 htemplate
  obtain ⟨call, hcall, heq⟩ := Option.map_eq_some_iff.1 hrun
  obtain ⟨hnames, hstatus⟩ := Prod.mk.inj heq
  refine ⟨⟨isRead_ordersAlone, inUse_ordersSampler⟩, ⟨r, t, hr, ht, hincomplete, hsize⟩, call, _,
    gives_of_toOption hcall, hnames, hstatus, ?_⟩
  rw [hstatus]
  decide

end RestScenario
