import RestScenario.Proofs.Resource.Site
import RestScenario.Proofs.Resource.Template
import RestScenario.Resource.Basic

/-!
# Resource models in use

Sampling counts realizations of templates and changes nothing else of a resource model. So after any
visits the sites are those of the catalogue (`sites_visitAll`), and each resource has the creation
chain and, counts aside, the templates with which it was built (`exists_site_of_visitAll`).
-/

namespace RestScenario

/-- The template as if never sampled. -/
def Template.uncounted (t : Template) : Template := { t with times := 0 }

/-- The resource as if none of its templates was ever sampled. -/
def Resource.uncounted (r : Resource) : Resource :=
  { r with templates := SortedMap.map (fun _ t => t.uncounted) r.templates }

namespace ResourceModel

variable {c : Catalogue} {m : ResourceModel} {key name : String} {r : Resource} {t : Template}
  (visits : List (String × String))

/-- Counts several templates, given by resource and name. -/
def visitAll (m : ResourceModel) (visits : List (String × String)) : ResourceModel :=
  visits.foldl (fun m v => m.visit v.1 v.2) m

/-- Counting a template shows in the counts alone. -/
theorem uncounted_visit : (m.visit key name).resources.map (fun _ => Resource.uncounted) =
    m.resources.map fun _ => Resource.uncounted := by
  unfold visit
  refine SortedMap.map_modify fun r => ?_
  have templates : SortedMap.map (fun _ t => t.uncounted)
      (SortedMap.modify r.templates name Template.visited) =
      SortedMap.map (fun _ t => t.uncounted) r.templates := SortedMap.map_modify fun _ => rfl
  unfold Resource.uncounted
  dsimp only
  rw [templates]

theorem uncounted_visitAll : (m.visitAll visits).resources.map (fun _ => Resource.uncounted) =
    m.resources.map fun _ => Resource.uncounted := by
  unfold visitAll
  induction visits generalizing m with
  | nil => rfl
  | cons v rest ih => exact ih.trans uncounted_visit

theorem uncounted_of_ofCatalogue (hmodel : ofCatalogue c = .ok m) :
    (m.visitAll visits).resources.map (fun _ => Resource.uncounted) =
      (Sites.ofCatalogue c).map fun _ s =>
        (Resource.ofSite (Sites.ofCatalogue c) s).uncounted := by
  rw [uncounted_visitAll]
  unfold ofCatalogue at hmodel
  cases hvalid : c.validate with
  | error e => simp [hvalid, bind, Except.bind] at hmodel
  | ok u =>
    rw [hvalid] at hmodel
    obtain rfl := Except.ok.inj hmodel
    dsimp only
    rw [SortedMap.map_map]

/-- The sites of a model in use are those of its catalogue. -/
theorem sites_visitAll (hmodel : ofCatalogue c = .ok m) :
    (m.visitAll visits).sites = Sites.ofCatalogue c := by
  have images := congrArg (fun rs : SortedMap String Resource => rs.map fun _ r => r.toSite)
    (uncounted_of_ofCatalogue visits hmodel)
  simp only [SortedMap.map_map] at images
  refine images.trans (SortedMap.ext ?_)
  exact List.map_id _

theorem uncounted_of_visitAll (hmodel : ofCatalogue c = .ok m)
    (hr : (m.visitAll visits).get? key = some r) :
    (Sites.ofCatalogue c).get? key = some r.toSite ∧
      (Resource.ofSite (Sites.ofCatalogue c) r.toSite).uncounted = r.uncounted := by
  have found := congrArg (SortedMap.get? · key)
    (uncounted_of_ofCatalogue visits hmodel)
  simp only [SortedMap.get?_map] at found
  rw [show (m.visitAll visits).resources.get? key = some r from hr, Option.map_some, eq_comm,
    Option.map_eq_some_iff] at found
  obtain ⟨s, hs, heq⟩ := found
  obtain rfl : s = r.toSite := congrArg Resource.toSite heq
  exact ⟨hs, heq⟩

/-- **A resource in use is as it was built**, counts aside. -/
theorem exists_site_of_visitAll (hmodel : ofCatalogue c = .ok m)
    (hr : (m.visitAll visits).get? key = some r) :
    (Sites.ofCatalogue c).get? key = some r.toSite ∧
      r.creation = (Sites.ofCatalogue c).chainOf r.toSite ∧
      ∀ name t, r.templates.get? name = some t → ∃ built : Template,
        (Templates.growCreating (.ofVerbs r.ownVerbs ((Sites.ofCatalogue c).isCreatable r.toSite))
          r.creation.length).get? name = some built ∧ built.uncounted = t.uncounted := by
  obtain ⟨hs, heq⟩ := uncounted_of_visitAll visits hmodel hr
  have hcreation : (Sites.ofCatalogue c).chainOf r.toSite = r.creation :=
    congrArg Resource.creation heq
  refine ⟨hs, hcreation.symm, fun name t ht => ?_⟩
  have templates := congrArg (fun r : Resource => SortedMap.get? r.templates name) heq
  simp only [Resource.uncounted, SortedMap.get?_map, ht] at templates
  rw [Option.map_some, Option.map_eq_some_iff] at templates
  obtain ⟨built, hbuilt, huncounted⟩ := templates
  rw [← hcreation]
  exact ⟨built, hbuilt, huncounted⟩

/-! ## Models in use -/

/-- The model is that of the catalogue, after some visits. -/
def InUse (c : Catalogue) (m : ResourceModel) : Prop :=
  ∃ built visits, ofCatalogue c = .ok built ∧ m = built.visitAll visits

theorem inUse_of_ofCatalogue (h : ofCatalogue c = .ok m) : m.InUse c := ⟨m, [], h, rfl⟩

theorem InUse.visit (h : m.InUse c) : (m.visit key name).InUse c := by
  obtain ⟨built, visits, hbuilt, rfl⟩ := h
  refine ⟨built, visits ++ [(key, name)], hbuilt, ?_⟩
  unfold visitAll
  rw [List.foldl_append]
  rfl

theorem InUse.sites_eq (h : m.InUse c) : m.sites = Sites.ofCatalogue c := by
  obtain ⟨built, visits, hbuilt, rfl⟩ := h
  exact sites_visitAll visits hbuilt

theorem InUse.site (h : m.InUse c) (hr : m.get? key = some r) :
    m.sites.get? key = some r.toSite := by
  rw [h.sites_eq]
  obtain ⟨built, visits, hbuilt, rfl⟩ := h
  exact (exists_site_of_visitAll visits hbuilt hr).1

/-- **A template in use** lists a single verb other than `POST`, or, where the resource is creatable,
`POST` with at most one verb more. -/
theorem InUse.template (h : m.InUse c) (hr : m.get? key = some r)
    (ht : r.templates.get? name = some t) :
    1 ≤ t.size ∧ ((∃ v ∈ r.ownVerbs, v ≠ .post ∧ t.verbs? = some [v] ∧ t.independent = true) ∨
      ∃ rest : List Verb, (rest = [] ∨ ∃ v ∈ r.ownVerbs, v ≠ .post ∧ rest = [v]) ∧
        t.verbs? = some (.post :: rest) ∧ (t.lists .patch = true → rest = [.patch]) ∧
        m.sites.isCreatable r.toSite = true) := by
  obtain ⟨built, visits, hbuilt, rfl⟩ := h
  obtain ⟨-, -, htemplates⟩ := exists_site_of_visitAll visits hbuilt hr
  obtain ⟨asBuilt, hasBuilt, huncounted⟩ := htemplates name t ht
  obtain ⟨hname, hindependent, hsize, -⟩ := Template.mk.inj huncounted
  have hverbs : asBuilt.verbs? = t.verbs? := congrArg Template.parseName? hname
  have hlists : asBuilt.lists .patch = t.lists .patch :=
    congrArg (fun name => (Template.parts name).contains Verb.patch.name) hname
  rw [← hindependent, ← hsize, ← hverbs, ← hlists]
  obtain ⟨-, ⟨v, hown, hv, -, hverbs, hindependent, hsize⟩ |
    ⟨hcreatable, rest, hrest, hverbs, hsize, hpatch⟩⟩ := Templates.of_growCreating hasBuilt
  · exact ⟨Nat.le_of_eq hsize.symm, .inl ⟨v, hown, hv, hverbs, hindependent⟩⟩
  · refine ⟨by omega, .inr ⟨rest, hrest, hverbs, hpatch, ?_⟩⟩
    rw [sites_visitAll visits hbuilt]
    exact hcreatable

end ResourceModel

end RestScenario
