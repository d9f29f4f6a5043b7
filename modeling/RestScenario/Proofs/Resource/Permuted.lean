import RestScenario.Proofs.Resource.Complete
import RestScenario.Proofs.Sampling.CreatingCalls

/-!
# The order of a catalogue does not matter

A model takes the first of several things in many places: the first action of a group gives a site its
path, the first `POST` of a site is its creator, the first of the nearest creators goes on with a
chain. None of these choices depends on the order in which the catalogue lists its actions. All actions
of a group have the same path, because paths that were read are told apart by their keys. A site has
one `POST` at most, because no two actions of an accepted catalogue have the same name. And the sites
are walked over in the order of their keys.

Chains see of a site its path, its ancestors and its creating action alone (`Site.creating`), and these
are the same for every order of the catalogue (`Sites.creating_ofCatalogue_of_perm`). So the whole model is
the same, but for the order of the actions on a site (`resource_model_independent_of_order`).
-/

namespace RestScenario

/-! ## Creating actions -/

/-- The site with its creating action alone. -/
def Site.creating (s : Site) : Site := { s with actions := (s.action? .post).toList }

@[simp]
theorem Site.action?_creating (s : Site) : s.creating.action? .post = s.action? .post := by
  unfold creating
  cases h : s.action? .post with
  | none => rfl
  | some a =>
    have hverb : a.verb = .post := Sites.verb_of_action? h
    simp [action?, hverb]

namespace Sites

variable {sites : Sites} {s : Site}

/-- The sites with their creating actions alone. -/
def creating (sites : Sites) : Sites := sites.map fun _ s => s.creating

theorem get?_creating {key : String} : sites.creating.get? key = (sites.get? key).map Site.creating :=
  SortedMap.get?_map

theorem ancestors_creating {keys : List String} :
    keys.filterMap sites.creating.get? = (keys.filterMap sites.get?).map Site.creating := by
  rw [List.map_filterMap]
  exact List.filterMap_congr fun key _ => get?_creating

theorem owners_creating {path : PathTemplate} :
    sites.creating.owners path = (sites.owners path).map Site.creating := by
  unfold owners
  rw [get?_creating]
  cases sites.get? path.key with
  | none =>
    have hvalues : sites.creating.values = sites.values.map Site.creating := by
      unfold creating SortedMap.values SortedMap.map
      simp
    simp only [Option.map_none, hvalues, List.filter_map]
    rfl
  | some s => simp only [Option.map_some, List.map_cons, ← ancestors_creating]; rfl

theorem creatorsFor_creating {path : PathTemplate} {exclude : String} :
    sites.creating.creatorsFor path exclude = sites.creatorsFor path exclude := by
  unfold creatorsFor
  rw [owners_creating, List.filterMap_map]
  simp only [Function.comp_def, Site.action?_creating]

theorem isCreatable_creating : sites.creating.isCreatable s.creating = sites.isCreatable s := by
  unfold isCreatable Site.hasAction
  rw [show s.creating.ancestors = s.ancestors from rfl, ancestors_creating, List.any_map]
  simp only [Function.comp_def, Site.action?_creating]

theorem extendChain_creating {first : Action} {rest : List Action} :
    sites.creating.extendChain first rest = sites.extendChain first rest := by
  fun_induction extendChain sites first rest with
  | case1 first rest hparent next hnext hlevels ih =>
    rw [extendChain, if_pos hparent, creatorsFor_creating, hnext]
    simp only [hlevels, if_true, ih]
  | case2 first rest hparent next hnext hlevels =>
    rw [extendChain, if_pos hparent, creatorsFor_creating, hnext]
    simp only [hlevels, if_false]
  | case3 first rest hparent hnone =>
    rw [extendChain, if_pos hparent, creatorsFor_creating, hnone]
  | case4 first rest hparent => rw [extendChain, if_neg hparent]

/-- **Chains see creating actions alone.** -/
theorem chainOf_creating : sites.creating.chainOf s.creating = sites.chainOf s := by
  have hstart : sites.creating.chainStart? s.creating = sites.chainStart? s := by
    unfold chainStart?
    rw [Site.action?_creating, show s.creating.path = s.path from rfl, creatorsFor_creating]
  unfold chainOf
  rw [hstart]
  cases sites.chainStart? s with
  | none => rfl
  | some a => exact extendChain_creating

end Sites

/-- Sites with the same path, ancestors and actions create alike, whatever the order of the actions. -/
theorem Site.creating_of_perm {s s' : Site} (hpath : s'.path = s.path)
    (hancestors : s'.ancestors = s.ancestors) (hactions : s'.actions.Perm s.actions)
    (hverbs : s.ownVerbs.Nodup) : s'.creating = s.creating := by
  have hpost : s'.action? .post = s.action? .post :=
    (find?_eq_of_perm hactions.symm hverbs).symm
  unfold creating
  rw [hpost]
  cases s
  cases s'
  simp_all

/-! ## Catalogues in another order -/

namespace Catalogue

variable {c c' : Catalogue} {key : String}

theorem get?_groupByPath : c.groupByPath.get? key =
    if (c.actions.filter fun a => a.path.key = key) = [] then none
    else some (c.actions.filter fun a => a.path.key = key) := by
  have hgroup : (c.groupByPath.get? key).getD [] = c.actions.filter fun a => a.path.key = key :=
    getD_groupByPath
  cases hget : c.groupByPath.get? key with
  | none => simp [← hgroup, hget]
  | some actions =>
    obtain ⟨hne, -⟩ := grouped_groupByPath key actions hget
    rw [hget, Option.getD_some] at hgroup
    rw [← hgroup, if_neg hne]

/-- The path of a group. -/
def pathOf (actions : List Action) : PathTemplate := (actions.head?.map (·.path)).getD ⟨[]⟩

/-- Actions of one key have one path, whichever comes first. -/
theorem pathOf_perm (key : String) {actions actions' : List Action} (h : actions'.Perm actions)
    (hread : ∀ a ∈ actions, a.path.key = key ∧ a.path.IsRead) : pathOf actions' = pathOf actions := by
  cases actions' with
  | nil => rw [List.nil_perm.1 h]
  | cons first' rest' =>
    cases actions with
    | nil => simp at h
    | cons first rest =>
      obtain ⟨hkey, hfirst⟩ := hread first List.mem_cons_self
      obtain ⟨hkey', hfirst'⟩ := hread first' (h.subset List.mem_cons_self)
      exact PathTemplate.eq_of_key_eq hfirst' hfirst (hkey'.trans hkey.symm)

section Reordered

variable (hperm : c'.actions.Perm c.actions)
include hperm

theorem validate_of_perm (h : c.validate = .ok ()) : c'.validate = .ok () := by
  rw [validate_eq_ok_iff] at h ⊢
  exact (hperm.map _).nodup_iff.2 h

/-- The group of a key has the same actions in any order of the catalogue, and the same path. -/
theorem groups_of_perm (hread : c.IsRead) (key : String) :
    c'.groupByPath.get? key = none ∧ c.groupByPath.get? key = none ∨
      ∃ actions' actions, c'.groupByPath.get? key = some actions' ∧
        c.groupByPath.get? key = some actions ∧ actions'.Perm actions ∧
        pathOf actions' = pathOf actions := by
  have hfilter : (c'.actions.filter fun a => a.path.key = key).Perm
      (c.actions.filter fun a => a.path.key = key) := hperm.filter _
  rw [get?_groupByPath, get?_groupByPath]
  by_cases hnone : (c.actions.filter fun a => a.path.key = key) = []
  · have hnone' : (c'.actions.filter fun a => a.path.key = key) = [] :=
      List.perm_nil.1 (hnone ▸ hfilter)
    exact .inl ⟨if_pos hnone', if_pos hnone⟩
  · have hnone' : ¬ (c'.actions.filter fun a => a.path.key = key) = [] := fun h =>
      hnone (List.perm_nil.1 (h ▸ hfilter.symm))
    refine .inr ⟨_, _, if_neg hnone', if_neg hnone, hfilter, pathOf_perm key hfilter fun a ha => ?_⟩
    obtain ⟨hmem, hkey⟩ := List.mem_filter.1 ha
    exact ⟨by simpa using hkey, hread a hmem⟩

end Reordered

end Catalogue

namespace Sites

variable {c c' : Catalogue} {key : String}

/-- The paths of a catalogue by key. -/
def pathsOf (c : Catalogue) : SortedMap String PathTemplate :=
  c.groupByPath.map fun _ actions => Catalogue.pathOf actions

theorem get?_ofCatalogue : (ofCatalogue c).get? key = (c.groupByPath.get? key).map fun actions =>
    ⟨Catalogue.pathOf actions, actions, ancestorsOf (pathsOf c).entries (Catalogue.pathOf actions)⟩ := by
  have hpaths : (pathsOf c).entries =
      c.groupByPath.entries.filterMap fun group => group.2.head?.map fun a => (group.1, a.path) := by
    refine (List.filterMap_eq_map_iff_forall_eq_some.2 ?_).symm
    rintro ⟨key, actions⟩ hentry
    obtain ⟨hne, -⟩ := Catalogue.grouped_groupByPath key actions (SortedMap.mem_entries_iff.1 hentry)
    cases actions with
    | nil => contradiction
    | cons first rest => rfl
  rw [hpaths]
  exact SortedMap.get?_map

section Reordered

variable (hread : c.IsRead) (hperm : c'.actions.Perm c.actions)
include hread hperm

theorem pathsOf_of_perm : pathsOf c' = pathsOf c := by
  refine SortedMap.ext_get? fun key => ?_
  unfold pathsOf
  rw [SortedMap.get?_map, SortedMap.get?_map]
  rcases c.groups_of_perm hperm hread key with ⟨h', h⟩ | ⟨actions', actions, h', h, -, hpath⟩
  · rw [h', h]
  · rw [h', h, Option.map_some, Option.map_some, hpath]

/-- The site of a key has the same path, ancestors and actions in any order of the catalogue. -/
theorem exists_reordered {s : Site} (hs : (ofCatalogue c).get? key = some s) :
    ∃ s', (ofCatalogue c').get? key = some s' ∧ s'.path = s.path ∧ s'.ancestors = s.ancestors ∧
      s'.actions.Perm s.actions := by
  rw [get?_ofCatalogue] at hs ⊢
  rcases c.groups_of_perm hperm hread key with ⟨-, h⟩ | ⟨actions', actions, h', h, hactions, hpath⟩
  · simp [h] at hs
  · rw [h, Option.map_some, Option.some.injEq] at hs
    subst hs
    rw [h', Option.map_some]
    refine ⟨_, rfl, hpath, ?_, hactions⟩
    dsimp only
    rw [hpath, pathsOf_of_perm hread hperm]

/-- **The creating actions of all sites are the same in any order of the catalogue.** -/
theorem creating_ofCatalogue_of_perm (hc : c.validate = .ok ()) :
    (ofCatalogue c').creating = (ofCatalogue c).creating := by
  refine SortedMap.ext_get? fun key => ?_
  rw [get?_creating, get?_creating]
  cases hs : (ofCatalogue c).get? key with
  | none =>
    cases hs' : (ofCatalogue c').get? key with
    | none => rfl
    | some s' =>
      have hread' : c'.IsRead := fun a ha => hread a (hperm.mem_iff.1 ha)
      obtain ⟨s, h, -⟩ := exists_reordered hread' hperm.symm hs'
      simp [hs] at h
  | some s =>
    obtain ⟨s', hs', hpath, hancestors, hactions⟩ := exists_reordered hread hperm hs
    rw [hs', Option.map_some, Option.map_some,
      Site.creating_of_perm hpath hancestors hactions (nodup_ownVerbs hc hs)]

end Reordered

end Sites

/-! ## Templates -/

namespace Templates

variable {ts : Templates} {own own' : List Verb} {creatable : Bool}

/-- Two templates may be added in either order, if they are the same or have different names. -/
theorem add_comm {t t' : Template} (h : t.name = t'.name → t = t') :
    (ts.add t).add t' = (ts.add t').add t := by
  refine SortedMap.ext_get? fun name => ?_
  unfold add
  by_cases hname : t.name = t'.name
  · rw [h hname]
  · by_cases hn : name = t.name <;> by_cases hn' : name = t'.name <;>
      simp_all [SortedMap.get?_insert]

theorem foldl_add_of_perm {make : Verb → Template} (hmake : ∀ v w, (make v).name = (make w).name →
    make v = make w) {verbs verbs' : List Verb} (h : verbs'.Perm verbs) :
    (verbs'.map make).foldl add ts = (verbs.map make).foldl add ts := by
  refine (h.map make).foldl_eq' ?_ ts
  intro t ht t' ht' ts
  obtain ⟨v, -, rfl⟩ := List.mem_map.1 ht
  obtain ⟨w, -, rfl⟩ := List.mem_map.1 ht'
  exact add_comm (hmake v w)

/-- The templates of verbs do not depend on the order of the verbs. -/
theorem ofVerbs_of_perm (h : own'.Perm own) : ofVerbs own' creatable = ofVerbs own creatable := by
  have hother : (own'.filter (· ≠ .post)).Perm (own.filter (· ≠ .post)) := h.filter _
  have hsingle : ∀ v w : Verb, (Template.unvisited v.name true 1).name =
      (Template.unvisited w.name true 1).name →
      Template.unvisited v.name true 1 = Template.unvisited w.name true 1 :=
    fun v w hname => congrArg (Template.unvisited · true 1) hname
  have hdouble : ∀ v w : Verb, (Template.unvisited (Template.nameOf [.post, v]) false 2).name =
      (Template.unvisited (Template.nameOf [.post, w]) false 2).name →
      Template.unvisited (Template.nameOf [.post, v]) false 2 =
        Template.unvisited (Template.nameOf [.post, w]) false 2 :=
    fun v w hname => congrArg (Template.unvisited · false 2) hname
  unfold ofVerbs
  dsimp only
  rw [foldl_add_of_perm hsingle hother, foldl_add_of_perm hdouble hother]

end Templates

/-- **The resource model does not depend on the order of the catalogue.** Take an accepted catalogue
whose paths were read, and any other order of its actions. That catalogue is accepted too, its model has
the same keys, and under each key a resource with the same path, ancestors, verb flags, creation chain
and templates. The actions of the resource are the same but for their order. -/
theorem resource_model_independent_of_order {c c' : Catalogue} {m : ResourceModel}
    (hread : c.IsRead) (hperm : c'.actions.Perm c.actions)
    (hm : ResourceModel.ofCatalogue c = .ok m) :
    ∃ m', ResourceModel.ofCatalogue c' = .ok m' ∧ m'.resources.keys = m.resources.keys ∧
      ∀ key r, m.get? key = some r → ∃ r', m'.get? key = some r' ∧ r'.path = r.path ∧
        r'.ancestors = r.ancestors ∧ r'.verbFlags = r.verbFlags ∧ r'.creation = r.creation ∧
        r'.templates = r.templates ∧ r'.actions.Perm r.actions := by
  obtain ⟨_, hc, hbuilt⟩ := bind_eq_ok.1 hm
  obtain rfl := Except.ok.inj hbuilt
  have hcreating := Sites.creating_ofCatalogue_of_perm hread hperm hc
  refine ⟨_, bind_eq_ok.2 ⟨(), Catalogue.validate_of_perm hperm hc, rfl⟩, ?_, fun key r hr => ?_⟩
  · have hkeys := congrArg SortedMap.keys hcreating
    simpa [Sites.creating, SortedMap.keys_map] using hkeys
  · obtain ⟨s, hs, rfl⟩ := Option.map_eq_some_iff.1 (SortedMap.get?_map.symm.trans hr)
    obtain ⟨s', hs', hpath, hancestors, hactions⟩ := Sites.exists_reordered hread hperm hs
    have hsite : s'.creating = s.creating :=
      Site.creating_of_perm hpath hancestors hactions (Sites.nodup_ownVerbs hc hs)
    have hverbs : s'.ownVerbs.Perm s.ownVerbs := hactions.map _
    have hcreation : (Sites.ofCatalogue c').chainOf s' = (Sites.ofCatalogue c).chainOf s := by
      rw [← Sites.chainOf_creating, hcreating, hsite, Sites.chainOf_creating]
    have hcreatable : (Sites.ofCatalogue c').isCreatable s' = (Sites.ofCatalogue c).isCreatable s := by
      rw [← Sites.isCreatable_creating, hcreating, hsite, Sites.isCreatable_creating]
    refine ⟨Resource.ofSite (Sites.ofCatalogue c') s', ?_, hpath, hancestors, ?_, hcreation, ?_,
      hactions⟩
    · exact SortedMap.get?_map.trans (by rw [hs']; rfl)
    · unfold Resource.verbFlags
      refine List.map_congr_left fun v _ => ?_
      have hown : s'.ownVerbs.contains v = s.ownVerbs.contains v := hverbs.contains_eq
      show (s'.ownVerbs.contains v || (v = .post && (Sites.ofCatalogue c').isCreatable s')) = _
      rw [hown, hcreatable]
      rfl
    · unfold Resource.ofSite
      dsimp only
      rw [hcreation, hcreatable, Templates.ofVerbs_of_perm hverbs]

namespace Sample

/-- The shop from its last action to its first. -/
def reversedShop : Catalogue := ⟨shop.actions.reverse⟩

end Sample

open Sample in
/-- Orders are created below users from whichever end the shop is read. -/
theorem orders_created_alike_in_reverse :
    shop.IsRead ∧ reversedShop.actions.Perm shop.actions ∧
      ∃ m' r', ResourceModel.ofCatalogue reversedShop = .ok m' ∧
        m'.get? "/users/\x7bid\x7d/orders" = some r' ∧ r'.ancestors = ["/users"] ∧
        r'.creation.actions.map Action.name = ["POST:/users", "POST:/users/\x7bid\x7d/orders"] ∧
        r'.templates.keys = ["GET", "POST", "POST-GET"] := by
  have hperm : reversedShop.actions.Perm shop.actions := List.reverse_perm _
  have hm : ResourceModel.ofCatalogue shop = .ok shopModel :=
    eq_ok_of_isSome_toOption .empty (by decide +kernel)
  obtain ⟨m', hm', -, hresources⟩ := resource_model_independent_of_order isRead_shop hperm hm
  have horders : (shopModel.get? "/users/\x7bid\x7d/orders").map
      (fun r => (r.ancestors, r.creation.actions.map Action.name, r.templates.keys)) =
        some (["/users"], ["POST:/users", "POST:/users/\x7bid\x7d/orders"],
          ["GET", "POST", "POST-GET"]) := by decide +kernel
  obtain ⟨r, hr, heq⟩ := Option.map_eq_some_iff.1 horders
  simp only [Prod.mk.injEq] at heq
  obtain ⟨hancestors, hcreation, htemplates⟩ := heq
  obtain ⟨r', hr', -, hancestors', -, hcreation', htemplates', -⟩ := hresources _ r hr
  refine ⟨isRead_shop, hperm, m', r', hm', hr', ?_, ?_, ?_⟩
  · rw [hancestors', hancestors]
  · rw [hcreation', hcreation]
  · rw [htemplates', htemplates]

end RestScenario
