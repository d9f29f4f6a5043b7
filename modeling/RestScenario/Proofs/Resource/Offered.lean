import RestScenario.Proofs.Resource.Model

/-!
# What a catalogue offers

Which resources a catalogue has, and which templates they have, does not depend on what was sampled
before: a model in use has the resources of its catalogue (`ResourceModel.InUse.hasResource`,
`ResourceModel.InUse.exists_resource`) and their templates
(`ResourceModel.InUse.hasTemplate`, `ResourceModel.InUse.exists_template`). So keys and names that
were taken from a model stay good for the model after any visits.
-/

namespace RestScenario

namespace Catalogue

/-- The catalogue has a resource under the key. -/
def HasResource (c : Catalogue) (key : String) : Prop := ∃ s, (Sites.ofCatalogue c).get? key = some s

/-- A resource of the catalogue has a template under the name. -/
def HasTemplate (c : Catalogue) (key name : String) : Prop :=
  ∃ s, (Sites.ofCatalogue c).get? key = some s ∧
    ((Resource.ofSite (Sites.ofCatalogue c) s).templates.get? name).isSome = true

variable {c : Catalogue} {key name : String}

theorem HasTemplate.hasResource (h : c.HasTemplate key name) : c.HasResource key := by
  obtain ⟨s, hs, -⟩ := h
  exact ⟨s, hs⟩

end Catalogue

namespace ResourceModel.InUse

variable {c : Catalogue} {m : ResourceModel} {key name : String} {r : Resource} {t : Template}
  (hm : m.InUse c)
include hm

/-! ## Resources -/

theorem exists_resource (h : c.HasResource key) : ∃ r, m.get? key = some r := by
  obtain ⟨s, hs⟩ := h
  rw [← hm.sites_eq] at hs
  unfold sites at hs
  rw [SortedMap.get?_map] at hs
  obtain ⟨r, hr, -⟩ := Option.map_eq_some_iff.1 hs
  exact ⟨r, hr⟩

theorem site_ofCatalogue (hr : m.get? key = some r) :
    (Sites.ofCatalogue c).get? key = some r.toSite := hm.sites_eq ▸ hm.site hr

theorem hasResource (hr : m.get? key = some r) : c.HasResource key :=
  ⟨r.toSite, hm.site_ofCatalogue hr⟩

theorem key_eq (hr : m.get? key = some r) : r.key = key :=
  Sites.path_key_ofCatalogue (hm.site_ofCatalogue hr)

/-- The resource of a site has an action. -/
theorem actions_ne_nil (hr : m.get? key = some r) : r.actions ≠ [] := by
  obtain ⟨first, rest, -, -, hactions, -⟩ := Sites.exists_group (hm.site_ofCatalogue hr)
  rw [hactions]
  exact List.cons_ne_nil _ _

/-- A key that can be sampled from belongs to a resource. -/
theorem hasResource_of_mem_sampleableKeys (h : key ∈ m.sampleableKeys) : c.HasResource key := by
  obtain ⟨r, hmem, rfl⟩ := List.mem_map.1 h
  obtain ⟨key, hr⟩ := SortedMap.mem_values_iff.1 (List.mem_filter.1 hmem).1
  rw [hm.key_eq hr]
  exact hm.hasResource hr

/-! ## Templates -/

/-- Counts aside, the templates are those of the site. -/
theorem uncounted_eq (hr : m.get? key = some r) :
    (Resource.ofSite (Sites.ofCatalogue c) r.toSite).uncounted = r.uncounted := by
  obtain ⟨built, visits, hbuilt, rfl⟩ := hm
  exact (uncounted_of_visitAll visits hbuilt hr).2

theorem isSome_template (hr : m.get? key = some r) :
    ((Resource.ofSite (Sites.ofCatalogue c) r.toSite).templates.get? name).isSome =
      (r.templates.get? name).isSome := by
  have templates := congrArg (fun r : Resource => (SortedMap.get? r.templates name).isSome)
    (hm.uncounted_eq hr)
  unfold Resource.uncounted at templates
  simpa only [SortedMap.get?_map, Option.isSome_map] using templates

theorem exists_template (h : c.HasTemplate key name) :
    ∃ r t, m.get? key = some r ∧ r.templates.get? name = some t := by
  obtain ⟨r, hr⟩ := hm.exists_resource h.hasResource
  obtain ⟨s, hs, hsome⟩ := h
  obtain rfl : r.toSite = s := Option.some.inj ((hm.site_ofCatalogue hr).symm.trans hs)
  rw [hm.isSome_template hr] at hsome
  obtain ⟨t, ht⟩ := Option.isSome_iff_exists.1 hsome
  exact ⟨r, t, hr, ht⟩

/-- Templates are filed under their names. -/
theorem name_eq (hr : m.get? key = some r) (ht : r.templates.get? name = some t) :
    t.name = name := by
  have templates := congrArg (fun r : Resource => SortedMap.get? r.templates name)
    (hm.uncounted_eq hr)
  simp only [Resource.uncounted, SortedMap.get?_map, ht, Option.map_some,
    Option.map_eq_some_iff] at templates
  obtain ⟨built, hbuilt, huncounted⟩ := templates
  have hname : built.name = t.name := (Template.mk.inj huncounted).1
  exact hname.symm.trans (Templates.of_growCreating hbuilt).1

theorem hasTemplate (hr : m.get? key = some r) (ht : t ∈ r.templates.values) :
    c.HasTemplate key t.name := by
  obtain ⟨name, ht⟩ := SortedMap.mem_values_iff.1 ht
  refine ⟨r.toSite, hm.site_ofCatalogue hr, ?_⟩
  rw [hm.isSome_template hr, hm.name_eq hr ht, ht]
  rfl

/-- A resource with a `POST` has the template of that name. -/
theorem hasTemplate_post (hr : m.get? key = some r) (h : r.hasAction .post = true) :
    c.HasTemplate key Verb.post.name := by
  have hcreatable : (Sites.ofCatalogue c).isCreatable r.toSite = true := by
    unfold Sites.isCreatable
    rw [h, Bool.true_or]
  refine ⟨r.toSite, hm.site_ofCatalogue hr, ?_⟩
  unfold Resource.ofSite
  dsimp only
  unfold Templates.growCreating
  rw [SortedMap.get?_map, Option.isSome_map, hcreatable]
  exact Templates.isSome_get?_post

end ResourceModel.InUse

end RestScenario
