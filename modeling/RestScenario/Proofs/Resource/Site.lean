import RestScenario.Proofs.Lists
import RestScenario.Proofs.Ordered.Map
import RestScenario.Proofs.Path
import RestScenario.Resource.Site

/-!
# Sites of a catalogue and their creators

Every site of a catalogue stands under the key of its path, which all its actions have, and its
ancestors have paths that are ancestors of it (`Sites.wellFormed_ofCatalogue`). The creators of a path
are the candidates on the longest paths (`Sites.mem_creatorsFor_iff`), so of the actions that may create
a site its own `POST` comes first (`Sites.head?_creatorsFor`), whatever action the creation is for.
-/

namespace RestScenario

/-! ## Names of actions -/

theorem Verb.not_mem_name (v : Verb) : ':' ∉ v.name.toList := by
  cases v <;> decide

theorem Verb.name_injective {v w : Verb} (h : v.name = w.name) : v = w := by
  cases v <;> cases w <;> first | rfl | exact absurd h (by decide)

namespace Action

variable {a b : Action}

theorem toList_name : a.name.toList = a.verb.name.toList ++ ':' :: a.path.key.toList := by
  simp [name]

theorem verb_eq_of_name_eq (h : a.name = b.name) : a.verb = b.verb := by
  have hverbs := congrArg (fun s : String => s.toList.takeWhile (· ≠ ':')) h
  simp only [toList_name, takeWhile_append_cons (Verb.not_mem_name _)] at hverbs
  exact Verb.name_injective (String.toList_injective hverbs)

theorem name_ne_empty : a.name ≠ "" := by
  intro h
  have := congrArg String.toList h
  rw [toList_name] at this
  simp at this

end Action

/-! ## Groups of actions -/

namespace Catalogue

variable {c : Catalogue} {groups : SortedMap String (List Action)} {a : Action}

/-- The actions were read from texts: their paths were. -/
def IsRead (c : Catalogue) : Prop := ∀ a ∈ c.actions, a.path.IsRead

/-- No group is empty, and its actions are on the path that it stands under. -/
def Grouped (c : Catalogue) (groups : SortedMap String (List Action)) : Prop :=
  ∀ key actions, groups.get? key = some actions →
    actions ≠ [] ∧ ∀ a ∈ actions, a.path.key = key ∧ a ∈ c.actions

theorem grouped_upsert (ha : a ∈ c.actions) (h : c.Grouped groups) :
    c.Grouped (groups.upsert a.path.key fun g => g.getD [] ++ [a]) := by
  intro key actions hget
  by_cases hkey : key = a.path.key
  · rw [hkey, SortedMap.get?_upsert_self, Option.some.injEq] at hget
    subst hget
    refine ⟨by simp, fun b hb => ?_⟩
    rcases List.mem_append.1 hb with hb | hb
    · cases hold : groups.get? a.path.key with
      | none => simp [hold] at hb
      | some old =>
        rw [hold] at hb
        exact hkey ▸ (h _ _ hold).2 b hb
    · rw [List.mem_singleton.1 hb]
      exact ⟨hkey.symm, ha⟩
  · rw [SortedMap.get?_upsert_of_ne _ hkey] at hget
    exact h key actions hget

theorem grouped_foldl {actions : List Action} (hactions : ∀ a ∈ actions, a ∈ c.actions)
    (h : c.Grouped groups) :
    c.Grouped (actions.foldl
      (fun groups a => groups.upsert a.path.key fun g => g.getD [] ++ [a]) groups) := by
  induction actions generalizing groups with
  | nil => exact h
  | cons a rest ih =>
    obtain ⟨ha, hrest⟩ := List.forall_mem_cons.1 hactions
    exact ih hrest (grouped_upsert ha h)

theorem grouped_groupByPath : c.Grouped c.groupByPath :=
  grouped_foldl (fun _ ha => ha) fun _ _ h => by contradiction

end Catalogue

/-! ## Sites -/

namespace Sites

/-- Sites stand under the key of their path and of the paths of their actions, all of which were
read, and ancestors have paths that are ancestors. -/
structure WellFormed (sites : Sites) : Prop where
  path_key : ∀ {key s}, sites.get? key = some s → s.path.key = key
  path_isRead : ∀ {key s}, sites.get? key = some s → s.path.IsRead
  action : ∀ {key s a}, sites.get? key = some s → a ∈ s.actions →
    a.path.key = key ∧ a.path.IsRead
  ancestor : ∀ {key s ancestor s'}, sites.get? key = some s → ancestor ∈ s.ancestors →
    sites.get? ancestor = some s' → s'.path.isAncestorOf s.path = true

variable {c : Catalogue} {sites : Sites} {s : Site} {a : Action} {key exclude : String}
  {path : PathTemplate}

theorem WellFormed.get?_path_key (hsites : sites.WellFormed) (hs : sites.get? key = some s) :
    sites.get? s.path.key = some s := by
  rw [hsites.path_key hs]
  exact hs

theorem exists_group (h : (ofCatalogue c).get? key = some s) :
    ∃ first rest, c.groupByPath.get? key = some (first :: rest) ∧ s.path = first.path ∧
      s.actions = first :: rest ∧
      s.ancestors = ancestorsOf (c.groupByPath.entries.filterMap fun (key, actions) =>
        actions.head?.map fun a => (key, a.path)) first.path := by
  unfold ofCatalogue at h
  rw [SortedMap.get?_map, Option.map_eq_some_iff] at h
  obtain ⟨actions, hactions, rfl⟩ := h
  obtain ⟨hne, -⟩ := Catalogue.grouped_groupByPath key actions hactions
  cases actions with
  | nil => contradiction
  | cons first rest => exact ⟨first, rest, hactions, rfl, rfl, rfl⟩

/-- A site of a catalogue stands under the key of its path. -/
theorem path_key_ofCatalogue (h : (ofCatalogue c).get? key = some s) : s.path.key = key := by
  obtain ⟨first, rest, hgroup, hpath, -, -⟩ := exists_group h
  rw [hpath]
  exact ((Catalogue.grouped_groupByPath _ _ hgroup).2 first List.mem_cons_self).1

/-- The sites of a catalogue are well-formed. -/
theorem wellFormed_ofCatalogue (hread : c.IsRead) : (ofCatalogue c).WellFormed where
  path_key := path_key_ofCatalogue
  path_isRead := by
    intro key s h
    obtain ⟨first, rest, hgroup, hpath, -, -⟩ := exists_group h
    rw [hpath]
    exact hread _ ((Catalogue.grouped_groupByPath _ _ hgroup).2 first List.mem_cons_self).2
  action := by
    intro key s a h ha
    obtain ⟨first, rest, hgroup, -, hactions, -⟩ := exists_group h
    rw [hactions] at ha
    obtain ⟨hkey, hmem⟩ := (Catalogue.grouped_groupByPath _ _ hgroup).2 a ha
    exact ⟨hkey, hread a hmem⟩
  ancestor := by
    intro key s ancestor s' h hancestor h'
    obtain ⟨first, rest, -, hpath, -, hancestors⟩ := exists_group h
    obtain ⟨first', rest', hgroup', hpath', -, -⟩ := exists_group h'
    rw [hancestors] at hancestor
    obtain ⟨⟨ancestorKey, ancestorPath⟩, hmem, rfl⟩ := List.mem_map.1 hancestor
    obtain ⟨hpaths, hbefore⟩ := List.mem_filter.1 (List.mem_mergeSort.1 hmem)
    obtain ⟨⟨k, actions⟩, hentry, hhead⟩ := List.mem_filterMap.1 hpaths
    obtain ⟨head, hfirst, heq⟩ := Option.map_eq_some_iff.1 hhead
    obtain ⟨rfl, rfl⟩ := Prod.mk.inj heq
    have group := SortedMap.mem_entries_iff.1 hentry
    rw [hgroup', Option.some.injEq] at group
    obtain rfl : first' = head := by simpa [← group] using hfirst
    rw [hpath', hpath]
    exact hbefore

/-! ### Creators -/

theorem foldl_max_of_le {n : Nat} {ns : List Nat} (h : ∀ m ∈ ns, m ≤ n) : ns.foldl max n = n := by
  induction ns with
  | nil => rfl
  | cons m rest ih =>
    obtain ⟨hm, hrest⟩ := List.forall_mem_cons.1 h
    rw [List.foldl_cons, Nat.max_eq_left hm, ih hrest]

theorem verb_of_action? {v : Verb} (h : s.action? v = some a) : a.verb = v := by
  simpa using List.find?_some h

theorem mem_of_action? {v : Verb} (h : s.action? v = some a) : a ∈ s.actions :=
  List.mem_of_find?_eq_some h

/-- A `POST` of an owner of the path, other than the excluded one. -/
structure IsCandidate (sites : Sites) (path : PathTemplate) (exclude : String) (a : Action) : Prop where
  owned : ∃ owner ∈ sites.owners path, owner.action? .post = some a
  name_ne : a.name ≠ exclude

theorem mem_posts_iff : a ∈ ((sites.owners path).filterMap (·.action? .post)).filter
    (fun a => a.name ≠ exclude) ↔ sites.IsCandidate path exclude a := by
  rw [List.mem_filter, List.mem_filterMap, decide_eq_true_eq]
  exact ⟨fun h => ⟨h.1, h.2⟩, fun h => ⟨h.owned, h.name_ne⟩⟩

/-- **The creators are the candidates on the longest paths.** -/
theorem mem_creatorsFor_iff : a ∈ sites.creatorsFor path exclude ↔
    sites.IsCandidate path exclude a ∧
      ∀ b, sites.IsCandidate path exclude b → b.path.levels ≤ a.path.levels := by
  unfold creatorsFor
  rw [List.mem_filter, mem_posts_iff, decide_eq_true_eq, and_congr_right_iff]
  intro ha
  constructor
  · intro hlongest b hb
    rw [hlongest]
    exact measure_le_foldl_max (fun b : Action => b.path.levels) (mem_posts_iff.2 hb)
  · intro hlongest
    obtain ⟨b, hb, heq⟩ := exists_eq_foldl_max (fun b : Action => b.path.levels)
      (List.ne_nil_of_mem (mem_posts_iff.2 ha))
    apply Nat.le_antisymm
    · exact measure_le_foldl_max (fun b : Action => b.path.levels) (mem_posts_iff.2 ha)
    · rw [← heq]
      exact hlongest b (mem_posts_iff.1 hb)

theorem exists_owner_of_mem_creatorsFor (h : a ∈ sites.creatorsFor path exclude) :
    ∃ owner ∈ sites.owners path, owner.action? .post = some a := (mem_creatorsFor_iff.1 h).1.owned

theorem verb_of_mem_creatorsFor (h : a ∈ sites.creatorsFor path exclude) : a.verb = .post := by
  obtain ⟨owner, -, hpost⟩ := exists_owner_of_mem_creatorsFor h
  exact verb_of_action? hpost

theorem owners_of_get? (h : sites.get? path.key = some s) :
    sites.owners path = s :: s.ancestors.filterMap sites.get? := by
  unfold owners
  rw [h]

theorem exists_get?_of_mem_owners {owner : Site} (h : owner ∈ sites.owners path) :
    ∃ key, sites.get? key = some owner := by
  unfold owners at h
  cases hget : sites.get? path.key with
  | none =>
    rw [hget] at h
    exact SortedMap.mem_values_iff.1 (List.mem_filter.1 h).1
  | some s =>
    rw [hget] at h
    rcases List.mem_cons.1 h with rfl | h
    · exact ⟨_, hget⟩
    · obtain ⟨key, -, hkey⟩ := List.mem_filterMap.1 h
      exact ⟨key, hkey⟩

/-- Where the path has a site, its key alone decides on the creators. -/
theorem creatorsFor_congr {path' : PathTemplate} (hs : sites.get? path.key = some s)
    (hkey : path'.key = path.key) :
    sites.creatorsFor path' exclude = sites.creatorsFor path exclude := by
  unfold creatorsFor
  rw [owners_of_get? hs, owners_of_get? (hkey ▸ hs)]

/-- A name that no `POST` has passes over none. -/
theorem creatorsFor_of_ne_post (h : ∀ a : Action, a.verb = .post → a.name ≠ exclude) :
    sites.creatorsFor path exclude = sites.creatorsFor path "" := by
  have all : ∀ name, (∀ a : Action, a.verb = .post → a.name ≠ name) →
      ((sites.owners path).filterMap (·.action? .post)).filter (fun a => a.name ≠ name) =
        (sites.owners path).filterMap (·.action? .post) := by
    intro name hname
    refine List.filter_eq_self.2 fun a ha => ?_
    obtain ⟨owner, -, hpost⟩ := List.mem_filterMap.1 ha
    simpa using hname a (verb_of_action? hpost)
  unfold creatorsFor
  rw [all exclude h, all "" fun a _ => a.name_ne_empty]

/-- A path with a `POST` among its owners that is not passed over has a creator. -/
theorem exists_head?_creatorsFor {owner : Site} (howner : owner ∈ sites.owners path)
    (ha : owner.action? .post = some a) (hname : a.name ≠ exclude) :
    ∃ b, (sites.creatorsFor path exclude).head? = some b := by
  have hcandidate : sites.IsCandidate path exclude a := ⟨⟨owner, howner, ha⟩, hname⟩
  -- The greatest length is that of one of the actions, so the filter keeps one.
  obtain ⟨b, hb, heq⟩ := exists_eq_foldl_max (fun a : Action => a.path.levels)
    (List.ne_nil_of_mem (mem_posts_iff.2 hcandidate))
  refine Option.isSome_iff_exists.1 (List.isSome_head?.2 (List.ne_nil_of_mem (a := b) ?_))
  exact List.mem_filter.2 ⟨hb, decide_eq_true heq⟩

/-- The chain of a creatable site has a start. -/
theorem exists_chainStart (hs : sites.get? s.path.key = some s) (h : sites.isCreatable s = true) :
    ∃ a, sites.chainStart? s = some a := by
  unfold chainStart?
  cases hown : s.action? .post with
  | some a => exact ⟨a, rfl⟩
  | none =>
    have hno : s.hasAction .post = false := by
      unfold Site.hasAction
      rw [hown]
      rfl
    unfold isCreatable at h
    rw [hno, Bool.false_or] at h
    obtain ⟨ancestor, hmem, hpost⟩ := List.any_eq_true.1 h
    obtain ⟨a, ha⟩ := Option.isSome_iff_exists.1 hpost
    have howner : ancestor ∈ sites.owners s.path := by
      rw [owners_of_get? hs]
      exact List.mem_cons_of_mem _ hmem
    exact exists_head?_creatorsFor howner ha a.name_ne_empty

section WellFormed

variable (hsites : sites.WellFormed) (hs : sites.get? s.path.key = some s)
include hsites hs

theorem path_of_mem_actions (ha : a ∈ s.actions) : a.path = s.path := by
  obtain ⟨hkey, hread⟩ := hsites.action hs ha
  exact PathTemplate.eq_of_key_eq hread (hsites.path_isRead hs) hkey

theorem isAncestorOf_of_ancestor {ancestor : Site} (h : ancestor ∈ s.ancestors.filterMap sites.get?)
    (ha : a ∈ ancestor.actions) : a.path.isAncestorOf s.path = true := by
  obtain ⟨key, hkey, hget⟩ := List.mem_filterMap.1 h
  have hself := hsites.get?_path_key hget
  rw [path_of_mem_actions hsites hself ha]
  exact hsites.ancestor hs hkey hget

theorem levels_of_mem_actions (ha : a ∈ s.actions) : a.path.levels = s.path.levels := by
  rw [path_of_mem_actions hsites hs ha]

theorem levels_of_ancestor {ancestor : Site} (h : ancestor ∈ s.ancestors.filterMap sites.get?)
    (ha : a ∈ ancestor.actions) : a.path.levels < s.path.levels :=
  decide_eq_true_iff.1 (Bool.and_eq_true_iff.1 (isAncestorOf_of_ancestor hsites hs h ha)).1

/-- A creator of a site is on its path or on an ancestor of it. -/
theorem path_of_mem_creatorsFor (h : a ∈ sites.creatorsFor s.path exclude) :
    a.path = s.path ∨ a.path.isAncestorOf s.path = true := by
  obtain ⟨owner, howner, hpost⟩ := exists_owner_of_mem_creatorsFor h
  rw [owners_of_get? hs] at howner
  rcases List.mem_cons.1 howner with rfl | howner
  · exact .inl (path_of_mem_actions hsites hs (mem_of_action? hpost))
  · exact .inr (isAncestorOf_of_ancestor hsites hs howner (mem_of_action? hpost))

theorem levels_le_of_mem_creatorsFor (h : a ∈ sites.creatorsFor s.path exclude) :
    a.path.levels ≤ s.path.levels := by
  rcases path_of_mem_creatorsFor hsites hs h with heq | hancestor
  · exact Nat.le_of_eq (congrArg PathTemplate.levels heq)
  · exact Nat.le_of_lt (decide_eq_true_iff.1 (Bool.and_eq_true_iff.1 hancestor).1)

/-- The creating action of a site comes before those of its ancestors. -/
theorem head?_creatorsFor (hown : s.action? .post = some a) (hname : a.name ≠ exclude) :
    (sites.creatorsFor s.path exclude).head? = some a := by
  have own := levels_of_mem_actions hsites hs (mem_of_action? hown)
  unfold creatorsFor
  rw [owners_of_get? hs, List.filterMap_cons, hown]
  dsimp only
  rw [List.filter_cons_of_pos (by simpa using hname), List.map_cons, List.foldl_cons,
    Nat.zero_max, foldl_max_of_le, List.filter_cons_of_pos (by simp), List.head?_cons]
  intro n hn
  obtain ⟨b, hb, rfl⟩ := List.mem_map.1 hn
  obtain ⟨ancestor, hancestor, hpost⟩ := List.mem_filterMap.1 (List.mem_filter.1 hb).1
  rw [own]
  exact Nat.le_of_lt (levels_of_ancestor hsites hs hancestor (mem_of_action? hpost))

/-- The action from which the chain of a site starts is its first creator. -/
theorem chainStart?_eq : sites.chainStart? s = (sites.creatorsFor s.path "").head? := by
  unfold chainStart?
  cases hown : s.action? .post with
  | none => rfl
  | some a => exact (head?_creatorsFor hsites hs hown a.name_ne_empty).symm

/-- It is also the first creator of any other action of the site. -/
theorem head?_creatorsFor_action (ha : a ∈ s.actions) (hverb : a.verb ≠ .post) :
    (sites.creatorsFor a.path a.name).head? = sites.chainStart? s := by
  have hkey := (hsites.action hs ha).1
  rw [creatorsFor_congr hs hkey, creatorsFor_of_ne_post, chainStart?_eq hsites hs]
  intro b hb hname
  exact hverb ((Action.verb_eq_of_name_eq hname).symm.trans hb)

theorem of_chainStart? (h : sites.chainStart? s = some a) :
    a.verb = .post ∧ a.path.levels ≤ s.path.levels := by
  rw [chainStart?_eq hsites hs] at h
  have hmem := List.mem_of_mem_head? h
  exact ⟨verb_of_mem_creatorsFor hmem, levels_le_of_mem_creatorsFor hsites hs hmem⟩

end WellFormed

/-! ### Offered actions -/

/-- The action is one of the site under its path. -/
def Offers (sites : Sites) (a : Action) : Prop := ∃ s, sites.get? a.path.key = some s ∧ a ∈ s.actions

theorem offers_of_mem_actions (hsites : sites.WellFormed) (hs : sites.get? key = some s)
    (ha : a ∈ s.actions) : sites.Offers a :=
  ⟨s, (hsites.action hs ha).1.symm ▸ hs, ha⟩

/-- A creator is offered. -/
theorem offers_of_mem_creatorsFor (hsites : sites.WellFormed)
    (ha : a ∈ sites.creatorsFor path exclude) : sites.Offers a := by
  obtain ⟨owner, howner, hpost⟩ := exists_owner_of_mem_creatorsFor ha
  obtain ⟨key, hget⟩ := exists_get?_of_mem_owners howner
  exact offers_of_mem_actions hsites hget (mem_of_action? hpost)

/-- A creator of an offered action is offered, on the same path or on an ancestor of it. -/
theorem of_creator_of_offers {b : Action} (hsites : sites.WellFormed) (hb : sites.Offers b)
    (ha : a ∈ sites.creatorsFor b.path exclude) :
    sites.Offers a ∧ (a.path = b.path ∨ a.path.isAncestorOf b.path = true) := by
  obtain ⟨s, hs, hmem⟩ := hb
  have hself := hsites.get?_path_key hs
  rw [path_of_mem_actions hsites hself hmem] at ha ⊢
  exact ⟨offers_of_mem_creatorsFor hsites ha, path_of_mem_creatorsFor hsites hself ha⟩

/-- The actions of a site of a catalogue are in the catalogue. -/
theorem mem_of_mem_actions (hs : (ofCatalogue c).get? key = some s) (ha : a ∈ s.actions) :
    a ∈ c.actions := by
  obtain ⟨first, rest, hgroup, -, hactions, -⟩ := exists_group hs
  rw [hactions] at ha
  exact ((Catalogue.grouped_groupByPath _ _ hgroup).2 a ha).2

theorem mem_of_offers (h : (ofCatalogue c).Offers a) : a ∈ c.actions := by
  obtain ⟨s, hs, ha⟩ := h
  exact mem_of_mem_actions hs ha

end Sites

end RestScenario
