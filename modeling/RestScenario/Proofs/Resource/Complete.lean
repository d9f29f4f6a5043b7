import Mathlib.Data.List.Nodup
import RestScenario.Proofs.Computation
import RestScenario.Proofs.Resource.Offered

/-!
# No action of a catalogue is lost

The site of a path has the actions of the catalogue on that path, all of them and in their order
(`Sites.actions_eq`). An accepted catalogue has no two actions of one name, so a site has no verb
twice (`Sites.nodup_ownVerbs`). Every resource can be sampled (`ResourceModel.InUse.isSampleable`),
and no two of its templates have one name (`ResourceModel.InUse.nodup_templateNames`).
-/

namespace RestScenario

namespace Catalogue

variable {c : Catalogue} {key : String}

/-! ## Groups -/

/-- Each action is filed at the end of the group of its path. -/
theorem getD_foldl_upsert {groups : SortedMap String (List Action)} {actions : List Action} :
    ((actions.foldl (fun groups a => groups.upsert a.path.key fun g => g.getD [] ++ [a])
      groups).get? key).getD [] =
      (groups.get? key).getD [] ++ actions.filter fun a => a.path.key = key := by
  induction actions generalizing groups with
  | nil => simp
  | cons a rest ih =>
    rw [List.foldl_cons, ih]
    by_cases hkey : key = a.path.key
    · rw [hkey, SortedMap.get?_upsert_self, Option.getD_some, List.filter_cons_of_pos (by simp),
        List.append_assoc, List.singleton_append]
    · rw [SortedMap.get?_upsert_of_ne _ hkey,
        List.filter_cons_of_neg (by simpa using Ne.symm hkey)]

theorem getD_groupByPath :
    (c.groupByPath.get? key).getD [] = c.actions.filter fun a => a.path.key = key :=
  getD_foldl_upsert

/-! ## Names -/

theorem firstRepeated?_eq_none_iff {seen names : List String} :
    firstRepeated? seen names = none ↔ names.Nodup ∧ ∀ n ∈ names, n ∉ seen := by
  induction names generalizing seen with
  | nil => simp [firstRepeated?]
  | cons n rest ih =>
    rw [firstRepeated?, List.nodup_cons, List.forall_mem_cons]
    by_cases hseen : n ∈ seen
    · simp [hseen]
    · rw [if_neg hseen, ih]
      simp only [List.mem_cons, not_or, hseen, not_false_eq_true, true_and]
      constructor
      · rintro ⟨hnodup, hfresh⟩
        exact ⟨⟨fun hn => (hfresh n hn).1 rfl, hnodup⟩, fun m hm => (hfresh m hm).2⟩
      · rintro ⟨⟨hn, hnodup⟩, hfresh⟩
        exact ⟨hnodup, fun m hm => ⟨fun heq => hn (heq ▸ hm), hfresh m hm⟩⟩

theorem validate_eq_ok_iff : c.validate = .ok () ↔ (c.actions.map Action.name).Nodup := by
  have hnames : firstRepeated? [] (c.actions.map Action.name) = none ↔
      (c.actions.map Action.name).Nodup := by simp [firstRepeated?_eq_none_iff]
  rw [← hnames]
  unfold validate
  cases firstRepeated? [] (c.actions.map Action.name) <;> simp

/-- An accepted catalogue has no two actions of one name. -/
theorem nodup_names (h : c.validate = .ok ()) : (c.actions.map Action.name).Nodup :=
  validate_eq_ok_iff.1 h

end Catalogue

namespace Sites

variable {c : Catalogue} {s : Site} {key : String} {a : Action}

/-- **The site of a path has the actions of the catalogue on it.** -/
theorem actions_eq (h : (ofCatalogue c).get? key = some s) :
    s.actions = c.actions.filter fun a => a.path.key = key := by
  obtain ⟨first, rest, hgroup, -, hactions, -⟩ := exists_group h
  rw [hactions, ← Catalogue.getD_groupByPath, hgroup, Option.getD_some]

/-- Every action of the catalogue is on a site. -/
theorem offers_of_mem (ha : a ∈ c.actions) : (ofCatalogue c).Offers a := by
  have hgroup : a ∈ (c.groupByPath.get? a.path.key).getD [] := by
    rw [Catalogue.getD_groupByPath]
    exact List.mem_filter.2 ⟨ha, by simp⟩
  unfold Offers ofCatalogue
  dsimp only
  rw [SortedMap.get?_map]
  cases hactions : c.groupByPath.get? a.path.key with
  | none => simp [hactions] at hgroup
  | some actions =>
    rw [hactions, Option.getD_some] at hgroup
    exact ⟨_, rfl, hgroup⟩

/-- No verb occurs twice on a site of an accepted catalogue. -/
theorem nodup_ownVerbs (hc : c.validate = .ok ()) (h : (ofCatalogue c).get? key = some s) :
    s.ownVerbs.Nodup := by
  have hnames : (s.actions.map Action.name).Nodup := by
    rw [actions_eq h]
    exact (Catalogue.nodup_names hc).sublist (List.filter_sublist.map _)
  -- on one site the name of an action is its verb before the same path
  have hverbs : s.actions.map Action.name = s.ownVerbs.map fun v => v.name ++ ":" ++ key := by
    unfold Site.ownVerbs
    rw [List.map_map]
    refine List.map_congr_left fun a ha => ?_
    rw [actions_eq h, List.mem_filter, decide_eq_true_eq] at ha
    unfold Action.name
    rw [ha.2]
    rfl
  rw [hverbs] at hnames
  exact List.Nodup.of_map _ hnames

end Sites

namespace ResourceModel.InUse

variable {c : Catalogue} {m : ResourceModel} {key : String} {r : Resource} (hm : m.InUse c)
include hm

theorem validate : c.validate = .ok () := by
  obtain ⟨built, -, hbuilt, -⟩ := hm
  obtain ⟨_, hc, -⟩ := bind_eq_ok.1 hbuilt
  exact hc

theorem creation_eq (hr : m.get? key = some r) :
    r.creation = (Sites.ofCatalogue c).chainOf r.toSite :=
  (congrArg Resource.creation (hm.uncounted_eq hr)).symm

theorem nodup_ownVerbs (hr : m.get? key = some r) : r.ownVerbs.Nodup :=
  Sites.nodup_ownVerbs hm.validate (hm.site_ofCatalogue hr)

/-- **Every resource can be sampled.** -/
theorem isSampleable (hr : m.get? key = some r) : r.isSampleable = true := by
  obtain ⟨a, ha⟩ := List.exists_mem_of_ne_nil _ (hm.actions_ne_nil hr)
  have hown : a.verb ∈ r.ownVerbs := List.mem_map_of_mem ha
  have htemplate : c.HasTemplate key a.verb.name := by
    by_cases hv : a.verb = .post
    · rw [hv]
      refine hm.hasTemplate_post hr (List.find?_isSome.2 ⟨a, ha, ?_⟩)
      simpa using hv
    · refine ⟨r.toSite, hm.site_ofCatalogue hr, ?_⟩
      unfold Resource.ofSite
      dsimp only
      unfold Templates.growCreating
      rw [SortedMap.get?_map, Option.isSome_map]
      exact Templates.isSome_get?_single hown hv
  obtain ⟨r', t, hr', ht⟩ := hm.exists_template htemplate
  obtain rfl : r = r' := Option.some.inj (hr.symm.trans hr')
  have hmem := SortedMap.mem_entries_iff.2 ht
  unfold Resource.isSampleable SortedMap.isEmpty
  cases hentries : r.templates.entries with
  | nil => simp [hentries] at hmem
  | cons _ _ => rfl

/-- The templates of a resource have different names. -/
theorem nodup_templateNames (hr : m.get? key = some r) :
    (r.templates.values.map (·.name)).Nodup := by
  have hkeys : r.templates.values.map (·.name) = SortedMap.keys r.templates := by
    unfold SortedMap.values SortedMap.keys
    rw [List.map_map]
    exact List.map_congr_left fun e he => hm.name_eq hr (SortedMap.mem_entries_iff.1 he)
  rw [hkeys]
  exact SortedMap.nodup_keys

end ResourceModel.InUse

end RestScenario
