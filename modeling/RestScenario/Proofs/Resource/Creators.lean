import RestScenario.Proofs.Path.Forest
import RestScenario.Proofs.Resource.Chain

/-!
# Creators of a path

What creates a path is looked for in one of two ways. The owners of a path that has a resource are this
resource and its ancestors; for any other path, all resources are gone through for those on the path or
above it. Of their `POST`s the nearest are kept (`Sites.mem_creatorsFor_iff`).

The two ways differ in what they take for the path itself. A resource is on its own path alone, while the
search takes in every spelling of the path, with other names for variables or in other letter case. So a
path with a resource misses the creators on its other spellings, and nothing else
(`creators_are_nearest_unless_spelled_otherwise`).
-/

namespace RestScenario

/-! ## Owners and their creators -/

namespace Sites

variable {c : Catalogue} {s : Site} {path : PathTemplate} {a : Action}

section Accepted

variable (hread : c.IsRead) (hc : c.validate = .ok ())
include hread hc

/-- A path without a resource has the `POST`s on it and above it among its owners, in whatever
spelling. -/
theorem exists_owner_iff_of_get?_none (hnone : (ofCatalogue c).get? path.key = none) :
    (∃ owner ∈ (ofCatalogue c).owners path, owner.action? .post = some a) ↔
      a ∈ c.actions ∧ a.verb = .post ∧ a.path.isSameOrAncestorOf path = true := by
  have hsites := wellFormed_ofCatalogue hread
  have howners : (ofCatalogue c).owners path =
      (ofCatalogue c).values.filter fun s => s.path.isSameOrAncestorOf path := by
    unfold owners
    rw [hnone]
  rw [howners]
  constructor
  · rintro ⟨owner, howner, hpost⟩
    obtain ⟨hvalue, habove⟩ := List.mem_filter.1 howner
    obtain ⟨key, hget⟩ := SortedMap.mem_values_iff.1 hvalue
    obtain ⟨ha, hverb, hpath⟩ := (action?_eq_some_iff hread hc (hsites.get?_path_key hget)).1 hpost
    exact ⟨ha, hverb, hpath ▸ habove⟩
  · rintro ⟨ha, hverb, habove⟩
    obtain ⟨owner, howner, hmem⟩ := offers_of_mem ha
    have hself := hsites.get?_path_key howner
    have hpath := path_of_mem_actions hsites hself hmem
    refine ⟨owner, List.mem_filter.2 ⟨SortedMap.mem_values_iff.2 ⟨_, hself⟩, hpath ▸ habove⟩, ?_⟩
    exact (action?_eq_some_iff hread hc hself).2 ⟨ha, hverb, hpath⟩

/-- **The owners of a path have the `POST`s on it and above it**, but for those on other spellings of a
path with a resource. -/
theorem exists_owner_iff_of_isRead (hpath : path.IsRead) :
    (∃ owner ∈ (ofCatalogue c).owners path, owner.action? .post = some a) ↔
      (a ∈ c.actions ∧ a.verb = .post ∧ a.path.isSameOrAncestorOf path = true) ∧
        (c.HasResource path.key → a.path.isEquivalent path = true → a.path = path) := by
  cases hget : (ofCatalogue c).get? path.key with
  | none =>
    have hunknown : ¬ c.HasResource path.key := by
      rintro ⟨s, hs⟩
      rw [hget] at hs
      contradiction
    rw [exists_owner_iff_of_get?_none hread hc hget, iff_self_and]
    intro _ hknown
    exact absurd hknown hunknown
  | some s =>
    obtain rfl : s.path = path := PathTemplate.eq_of_key_eq
      ((wellFormed_ofCatalogue hread).path_isRead hget) hpath (path_key_ofCatalogue hget)
    have hknown : c.HasResource s.path.key := ⟨s, hget⟩
    simp only [exists_owner_iff hread hc hget, hknown, true_implies, and_assoc,
      PathTemplate.same_or_isStrictPrefix_iff]

end Accepted

/-! ### Their order -/

theorem path_of_mem_pathsAbove {p : String × PathTemplate} (hp : p ∈ pathsAbove c path)
    (hs : (ofCatalogue c).get? p.1 = some s) : s.path = p.2 := by
  obtain ⟨⟨s', hs', heq⟩, -⟩ := mem_pathsAbove_iff.1 hp
  obtain rfl : s = s' := Option.some.inj (hs.symm.trans hs')
  exact heq

/-- Of two ancestors with equally long paths, the one with the smaller key comes first. -/
theorem pairwise_ancestors (hs : (ofCatalogue c).get? s.path.key = some s) :
    (s.ancestors.filterMap (ofCatalogue c).get?).Pairwise fun s s' =>
      s.path.levels = s'.path.levels → s.path.key < s'.path.key := by
  have hdistinct : (pathsAbove c s.path).Pairwise fun p q => p.1 ≠ q.1 := by
    have hnodup := nodup_ancestors hs
    rwa [ancestors_eq hs, List.Nodup, List.pairwise_map] at hnodup
  rw [ancestors_eq hs, List.filterMap_map, List.pairwise_filterMap]
  refine ((pairwise_pathsAbove c s.path).and hdistinct).imp_of_mem ?_
  intro p q hp hq hpq t ht t' ht' hlevels
  obtain ⟨hsorted, hne⟩ := hpq
  have heq := path_of_mem_pathsAbove hp ht
  have heq' := path_of_mem_pathsAbove hq ht'
  rw [heq, heq'] at hlevels
  rw [path_key_ofCatalogue ht, path_key_ofCatalogue ht']
  rcases hsorted with hlonger | ⟨-, hle⟩
  · exact absurd hlevels (Nat.ne_of_gt hlonger)
  · exact Std.lt_of_le_of_ne hle hne

/-- Of two owners with equally long paths, the one with the smaller key comes first. -/
theorem pairwise_owners (hread : c.IsRead) (path : PathTemplate) :
    ((ofCatalogue c).owners path).Pairwise fun s s' =>
      s.path.levels = s'.path.levels → s.path.key < s'.path.key := by
  have hsites := wellFormed_ofCatalogue hread
  unfold owners
  cases hget : (ofCatalogue c).get? path.key with
  | none =>
    apply List.Pairwise.filter
    rw [SortedMap.values, List.pairwise_map]
    refine (ofCatalogue c).increasing.imp_of_mem ?_
    intro e e' he he' hlt _
    have hkey := hsites.path_key (SortedMap.mem_entries_iff.1 he)
    have hkey' := hsites.path_key (SortedMap.mem_entries_iff.1 he')
    rw [hkey, hkey']
    exact compareOfLessAndEq_eq_lt.1 hlt
  | some s =>
    have hself := hsites.get?_path_key hget
    refine .cons ?_ (pairwise_ancestors hself)
    intro ancestor hancestor hlevels
    obtain ⟨key, hkey, hgetAncestor⟩ := List.mem_filterMap.1 hancestor
    have habove := PathTemplate.isAncestorOf_iff.1 (hsites.ancestor hget hkey hgetAncestor)
    exact absurd hlevels (Nat.ne_of_gt habove.levels_lt)

/-- **Creators come in the order of their keys.** -/
theorem pairwise_creatorsFor (hread : c.IsRead) (path : PathTemplate) (exclude : String) :
    ((ofCatalogue c).creatorsFor path exclude).Pairwise fun a b => a.path.key < b.path.key := by
  have hsites := wellFormed_ofCatalogue hread
  have hpath {s : Site} {a : Action} (hs : s ∈ (ofCatalogue c).owners path)
      (ha : s.action? .post = some a) : a.path = s.path := by
    obtain ⟨key, hget⟩ := exists_get?_of_mem_owners hs
    exact path_of_mem_actions hsites (hsites.get?_path_key hget) (mem_of_action? ha)
  have hposts : (((ofCatalogue c).owners path).filterMap (·.action? .post)).Pairwise fun a b =>
      a.path.levels = b.path.levels → a.path.key < b.path.key := by
    rw [List.pairwise_filterMap]
    refine (pairwise_owners hread path).imp_of_mem ?_
    intro s s' hs hs' hsorted a ha b hb
    rw [hpath hs ha, hpath hs' hb]
    exact hsorted
  have hsublist : ((ofCatalogue c).creatorsFor path exclude).Sublist
      (((ofCatalogue c).owners path).filterMap (·.action? .post)) :=
    List.filter_sublist.trans List.filter_sublist
  refine (hposts.sublist hsublist).imp_of_mem ?_
  intro a b ha hb hkeys
  obtain ⟨hcandidate, hlongest⟩ := mem_creatorsFor_iff.1 ha
  obtain ⟨hcandidate', hlongest'⟩ := mem_creatorsFor_iff.1 hb
  exact hkeys (Nat.le_antisymm (hlongest' a hcandidate) (hlongest b hcandidate'))

end Sites

/-! ## The nearest creators -/

namespace ResourceModel

/-- A `POST` of a resource that could create what is on the path: it is on the path in some spelling or
above it, and it is not excluded. -/
structure MayCreate (m : ResourceModel) (path : PathTemplate) (exclude : String) (a : Action) :
    Prop where
  offered : ∃ key r, m.get? key = some r ∧ r.path.isSameOrAncestorOf path = true ∧ a ∈ r.actions
  verb : a.verb = .post
  name_ne : a.name ≠ exclude

/-- One of these on the longest path. -/
structure IsCreator (m : ResourceModel) (path : PathTemplate) (exclude : String) (a : Action) : Prop
    extends m.MayCreate path exclude a where
  longest : ∀ b, m.MayCreate path exclude b → b.path.levels ≤ a.path.levels

/-- The path is that of a resource, and the action is on another spelling of it. -/
structure IsRival (m : ResourceModel) (path : PathTemplate) (a : Action) : Prop where
  resource : ∃ r, m.get? path.key = some r
  equivalent : a.path.isEquivalent path = true
  path_ne : a.path ≠ path

variable {c : Catalogue} {m : ResourceModel} {path : PathTemplate} {exclude : String} {a : Action}

theorem mayCreate_iff (hread : c.IsRead) (hm : m.InUse c) : m.MayCreate path exclude a ↔
    a ∈ c.actions ∧ a.verb = .post ∧ a.path.isSameOrAncestorOf path = true ∧ a.name ≠ exclude := by
  have hsites := Sites.wellFormed_ofCatalogue hread
  constructor
  · rintro ⟨⟨key, r, hr, habove, ha⟩, hverb, hname⟩
    have hs := hm.site_ofCatalogue hr
    have hpath := Sites.path_of_mem_actions hsites (hsites.get?_path_key hs) ha
    exact ⟨Sites.mem_of_mem_actions hs ha, hverb, hpath ▸ habove, hname⟩
  · rintro ⟨ha, hverb, habove, hname⟩
    obtain ⟨s, hs, hmem⟩ := Sites.offers_of_mem ha
    obtain ⟨r, hr⟩ := hm.exists_resource ⟨s, hs⟩
    obtain rfl : r.toSite = s := Option.some.inj ((hm.site_ofCatalogue hr).symm.trans hs)
    have hpath := Sites.path_of_mem_actions hsites (hsites.get?_path_key hs) hmem
    exact ⟨⟨_, r, hr, hpath ▸ habove, hmem⟩, hverb, hname⟩

theorem isCandidate_iff (hread : c.IsRead) (hm : m.InUse c) (hpath : path.IsRead) :
    m.sites.IsCandidate path exclude a ↔ m.MayCreate path exclude a ∧ ¬ m.IsRival path a := by
  have hknown : (∃ r, m.get? path.key = some r) ↔ c.HasResource path.key :=
    ⟨fun ⟨_, hr⟩ => hm.hasResource hr, hm.exists_resource⟩
  have hrival : ¬ m.IsRival path a ↔
      (c.HasResource path.key → a.path.isEquivalent path = true → a.path = path) := by
    rw [← hknown]
    constructor
    · intro h hresource hequivalent
      by_contra hne
      exact h ⟨hresource, hequivalent, hne⟩
    · intro h hrival
      exact hrival.path_ne (h hrival.resource hrival.equivalent)
  rw [hrival, mayCreate_iff hread hm, hm.sites_eq]
  constructor
  · rintro ⟨howned, hname⟩
    obtain ⟨⟨ha, hverb, habove⟩, hspelled⟩ :=
      (Sites.exists_owner_iff_of_isRead hread hm.validate hpath).1 howned
    exact ⟨⟨ha, hverb, habove, hname⟩, hspelled⟩
  · rintro ⟨⟨ha, hverb, habove, hname⟩, hspelled⟩
    exact ⟨(Sites.exists_owner_iff_of_isRead hread hm.validate hpath).2
      ⟨⟨ha, hverb, habove⟩, hspelled⟩, hname⟩

theorem mem_creatorsFor_iff (hread : c.IsRead) (hm : m.InUse c) (hpath : path.IsRead) :
    a ∈ m.sites.creatorsFor path exclude ↔
      (m.MayCreate path exclude a ∧ ¬ m.IsRival path a) ∧
        ∀ b, m.MayCreate path exclude b ∧ ¬ m.IsRival path b → b.path.levels ≤ a.path.levels := by
  simp only [Sites.mem_creatorsFor_iff, isCandidate_iff hread hm hpath]

/-- What is on another spelling of the path is as near as can be. -/
theorem IsRival.isCreator (hread : c.IsRead) (hm : m.InUse c) (h : m.IsRival path a)
    (ha : m.MayCreate path exclude a) : m.IsCreator path exclude a where
  toMayCreate := ha
  longest := by
    intro b hb
    obtain ⟨-, -, habove, -⟩ := (mayCreate_iff hread hm).1 hb
    have hlevels : a.path.levels = path.levels :=
      PathTemplate.levels_eq_of_forms_eq (PathTemplate.isEquivalent_iff_forms.1 h.equivalent)
    rw [hlevels]
    exact (PathTemplate.isSameOrAncestorOf_iff.1 habove).1

end ResourceModel

/-- **The creators of a path are the nearest ones, but for those on other spellings of it.** Take a
model in use whose paths were read, and any path that was read. A `POST` of a resource may create it if it
is on the path in some spelling or above it, and is not excluded. The creators found are those of these on
the longest path, except that a path with a resource misses what is on another spelling of it. So they are
all the nearest ones exactly where nothing is missed in this way, and they come in the order of the keys of
their paths, each once. -/
theorem creators_are_nearest_unless_spelled_otherwise {c : Catalogue} {m : ResourceModel}
    {path : PathTemplate} (hread : c.IsRead) (hm : m.InUse c) (hpath : path.IsRead)
    (exclude : String) :
    (∀ a, a ∈ m.sites.creatorsFor path exclude ↔
      (m.MayCreate path exclude a ∧ ¬ m.IsRival path a) ∧
        ∀ b, m.MayCreate path exclude b ∧ ¬ m.IsRival path b → b.path.levels ≤ a.path.levels) ∧
    ((∀ a, a ∈ m.sites.creatorsFor path exclude ↔ m.IsCreator path exclude a) ↔
      ∀ a, m.MayCreate path exclude a → ¬ m.IsRival path a) ∧
    (m.sites.creatorsFor path exclude).Pairwise fun a b => a.path.key < b.path.key := by
  refine ⟨fun a => ResourceModel.mem_creatorsFor_iff hread hm hpath, ⟨?_, ?_⟩, ?_⟩
  · intro hagree a ha hrival
    have hcreator := (hagree a).2 (hrival.isCreator hread hm ha)
    exact ((ResourceModel.mem_creatorsFor_iff hread hm hpath).1 hcreator).1.2 hrival
  · intro hnone a
    rw [ResourceModel.mem_creatorsFor_iff hread hm hpath]
    constructor
    · rintro ⟨⟨ha, -⟩, hlongest⟩
      exact ⟨ha, fun b hb => hlongest b ⟨hb, hnone b hb⟩⟩
    · intro ha
      exact ⟨⟨ha.toMayCreate, hnone a ha.toMayCreate⟩, fun b hb => ha.longest b hb.1⟩
  · rw [hm.sites_eq]
    exact Sites.pairwise_creatorsFor hread path exclude

namespace Sample

/-- Users are created under their `id` and read under their `uid`. -/
def renamedUsers : Catalogue :=
  ⟨[⟨.post, ⟨[.literal "users", .var "id"]⟩, [], false, none, none⟩,
    ⟨.get, ⟨[.literal "users", .var "uid"]⟩, [], false, none, none⟩]⟩

theorem isRead_renamedUsers : renamedUsers.IsRead := by
  intro a ha
  simp only [renamedUsers, List.mem_cons, List.not_mem_nil, or_false] at ha
  rcases ha with rfl | rfl
  · exact ⟨"/users/\x7bid\x7d", rfl⟩
  · exact ⟨"/users/\x7buid\x7d", rfl⟩

/-- The resource model of these users. -/
def renamedUsersModel : ResourceModel :=
  ((ResourceModel.ofCatalogue renamedUsers).toOption).getD .empty

theorem inUse_renamedUsersModel : renamedUsersModel.InUse renamedUsers :=
  ResourceModel.inUse_of_ofCatalogue (eq_ok_of_isSome_toOption .empty (by decide +kernel))

end Sample

open Sample in
/-- Users under a name that the API does not have are created under their `id`. -/
theorem users_by_name_are_created_by_id :
    renamedUsers.IsRead ∧ renamedUsersModel.InUse renamedUsers ∧
      ∃ path, PathTemplate.parse "/users/\x7bname\x7d" = .ok path ∧
        (renamedUsersModel.sites.creatorsFor path "").map Action.name = ["POST:/users/\x7bid\x7d"] ∧
        ∀ a, a ∈ renamedUsersModel.sites.creatorsFor path "" ↔
          renamedUsersModel.IsCreator path "" a := by
  let path : PathTemplate := ⟨[.literal "users", .var "name"]⟩
  have hparse : PathTemplate.parse "/users/\x7bname\x7d" = .ok path := rfl
  have hunknown : renamedUsersModel.get? path.key = none := by decide +kernel
  obtain ⟨-, hagree, -⟩ := creators_are_nearest_unless_spelled_otherwise isRead_renamedUsers
    inUse_renamedUsersModel ⟨_, hparse⟩ ""
  refine ⟨isRead_renamedUsers, inUse_renamedUsersModel, path, hparse, by decide +kernel,
    hagree.2 fun a _ hrival => ?_⟩
  obtain ⟨r, hr⟩ := hrival.resource
  rw [hunknown] at hr
  contradiction

open Sample in
/-- Users under their `uid` have no creator, although those under any other name have one. -/
theorem users_by_uid_lack_creator :
    ∃ path, PathTemplate.parse "/users/\x7buid\x7d" = .ok path ∧
      renamedUsersModel.InUse renamedUsers ∧ renamedUsersModel.sites.creatorsFor path "" = [] ∧
      ¬ ∀ a, a ∈ renamedUsersModel.sites.creatorsFor path "" ↔
        renamedUsersModel.IsCreator path "" a := by
  let path : PathTemplate := ⟨[.literal "users", .var "uid"]⟩
  let post : Action := ⟨.post, ⟨[.literal "users", .var "id"]⟩, [], false, none, none⟩
  have hnone : renamedUsersModel.sites.creatorsFor path "" = [] := by decide +kernel
  have hmay : renamedUsersModel.MayCreate path "" post :=
    (ResourceModel.mayCreate_iff isRead_renamedUsers inUse_renamedUsersModel).2
      ⟨List.mem_cons_self, rfl, by decide, Action.name_ne_empty⟩
  have hrival : renamedUsersModel.IsRival path post :=
    ⟨Option.isSome_iff_exists.1 (by decide +kernel), by decide, by decide⟩
  refine ⟨path, rfl, inUse_renamedUsersModel, hnone, ?_⟩
  intro hagree
  have hmem := (hagree post).2 (hrival.isCreator isRead_renamedUsers inUse_renamedUsersModel hmay)
  rw [hnone] at hmem
  contradiction

end RestScenario
