import Mathlib.Data.List.Chain
import RestScenario.Proofs.Resource.Ancestors

/-!
# Creation chains climb to the nearest creators

Above a path the creators are the `POST`s of the catalogue on strict prefixes of it. The nearest are
those of the longest path.

**One step.** The list of creators from which a chain goes on starts with a nearest one
(`Sites.isNearestCreator_of_head?`), and it is empty only where no creator is above
(`Sites.not_isCreatorAbove_of_head?`). Both hold where the list passes over the `POST` on the path
itself and over nothing else (`Catalogue.PassesOver`), as it does for the name of that `POST`.

**The whole chain.** Each step adds a nearest creator of the path of the outermost action, so a chain
stays linked as it grows, and its last action stays the same. It ends where the outermost action needs
no parent or nothing is above it (`Sites.climbs_extendChain`).

Paths get longer along a chain. So no action is in it twice (`creation_chains_climb_nearest_creators`).
-/

namespace RestScenario

/-! ## Creators above a path -/

namespace Catalogue

variable {c : Catalogue} {path : PathTemplate} {a : Action}

/-- A `POST` of the catalogue on a strict prefix of the path. -/
structure IsCreatorAbove (c : Catalogue) (path : PathTemplate) (a : Action) : Prop where
  mem : a ∈ c.actions
  verb : a.verb = .post
  above : a.path.IsStrictPrefix path

/-- A creator above the path such that none is on a longer path. -/
structure IsNearestCreator (c : Catalogue) (path : PathTemplate) (a : Action) : Prop
    extends c.IsCreatorAbove path a where
  longest : ∀ b, c.IsCreatorAbove path b → b.path.levels ≤ a.path.levels

/-- The `POST`s on the path have the name, and no creator above it has. -/
def PassesOver (c : Catalogue) (path : PathTemplate) (exclude : String) : Prop :=
  ∀ b ∈ c.actions, b.verb = .post →
    (b.path = path → b.name = exclude) ∧ (b.path.IsStrictPrefix path → b.name ≠ exclude)

/-- No action is named by the empty text. -/
theorem passesOver_empty (h : ∀ b ∈ c.actions, b.verb = .post → b.path ≠ path) :
    c.PassesOver path "" :=
  fun b hb hverb => ⟨fun hpath => absurd hpath (h b hb hverb), fun _ => b.name_ne_empty⟩

theorem passesOver_name (hc : c.validate = .ok ()) (ha : a ∈ c.actions) (hverb : a.verb = .post) :
    c.PassesOver a.path a.name := by
  intro b hb hpost
  constructor
  · intro hpath
    unfold Action.name
    rw [hpost, hverb, hpath]
  · intro hprefix hname
    obtain rfl : b = a := List.inj_on_of_nodup_map (nodup_names hc) hb ha hname
    exact Nat.lt_irrefl _ hprefix.levels_lt

end Catalogue

/-! ## One step of a chain -/

namespace Sites

variable {c : Catalogue} {s : Site} {a first : Action} {rest : List Action} {v : Verb}
  {exclude : String}

section Accepted

variable (hread : c.IsRead) (hc : c.validate = .ok ())
include hread hc

/-- An action is found on a site if it is the one of its verb on that path. -/
theorem action?_eq_some_iff (hs : (ofCatalogue c).get? s.path.key = some s) :
    s.action? v = some a ↔ a ∈ c.actions ∧ a.verb = v ∧ a.path = s.path := by
  have hpath : s.path.IsRead := (wellFormed_ofCatalogue hread).path_isRead hs
  unfold Site.action?
  rw [find?_eq_some_iff_of_nodup_map (nodup_ownVerbs hc hs), actions_eq hs, List.mem_filter,
    decide_eq_true_eq]
  constructor
  · rintro ⟨⟨ha, hkey⟩, hverb⟩
    exact ⟨ha, hverb, PathTemplate.eq_of_key_eq (hread a ha) hpath hkey⟩
  · rintro ⟨ha, hverb, heq⟩
    exact ⟨⟨ha, congrArg PathTemplate.key heq⟩, hverb⟩

/-- The `POST`s of the owners of a site are those on its path and above it. -/
theorem exists_owner_iff (hs : (ofCatalogue c).get? s.path.key = some s) :
    (∃ owner ∈ (ofCatalogue c).owners s.path, owner.action? .post = some a) ↔
      a ∈ c.actions ∧ a.verb = .post ∧ (a.path = s.path ∨ a.path.IsStrictPrefix s.path) := by
  have hsites := wellFormed_ofCatalogue hread
  rw [owners_of_get? hs]
  constructor
  · rintro ⟨owner, howner, hpost⟩
    rcases List.mem_cons.1 howner with rfl | howner
    · obtain ⟨ha, hverb, hpath⟩ := (action?_eq_some_iff hread hc hs).1 hpost
      exact ⟨ha, hverb, .inl hpath⟩
    · obtain ⟨key, hkey, hget⟩ := List.mem_filterMap.1 howner
      obtain ⟨owner', hget', hprefix⟩ := (mem_ancestors_iff hs).1 hkey
      obtain rfl : owner = owner' := Option.some.inj (hget.symm.trans hget')
      have hself := hsites.get?_path_key hget
      obtain ⟨ha, hverb, hpath⟩ := (action?_eq_some_iff hread hc hself).1 hpost
      exact ⟨ha, hverb, .inr (hpath ▸ hprefix)⟩
  · rintro ⟨ha, hverb, hpath | hprefix⟩
    · exact ⟨s, List.mem_cons_self, (action?_eq_some_iff hread hc hs).2 ⟨ha, hverb, hpath⟩⟩
    · obtain ⟨owner, howner, hmem⟩ := offers_of_mem ha
      have hself := hsites.get?_path_key howner
      have hpath := path_of_mem_actions hsites hself hmem
      have hkey : owner.path.key ∈ s.ancestors :=
        (mem_ancestors_iff hs).2 ⟨owner, hself, hpath ▸ hprefix⟩
      exact ⟨owner, List.mem_cons_of_mem _ (List.mem_filterMap.2 ⟨_, hkey, hself⟩),
        (action?_eq_some_iff hread hc hself).2 ⟨ha, hverb, hpath⟩⟩

/-- **The creators of a path start with a nearest one above it.** -/
theorem isNearestCreator_of_head? (hs : (ofCatalogue c).get? s.path.key = some s)
    (hover : c.PassesOver s.path exclude)
    (h : ((ofCatalogue c).creatorsFor s.path exclude).head? = some a) :
    c.IsNearestCreator s.path a := by
  obtain ⟨⟨howned, hname⟩, hlongest⟩ := mem_creatorsFor_iff.1 (List.mem_of_mem_head? h)
  obtain ⟨ha, hverb, hpath⟩ := (exists_owner_iff hread hc hs).1 howned
  refine ⟨⟨ha, hverb, ?_⟩, fun b hb => hlongest b ⟨?_, ?_⟩⟩
  · exact hpath.resolve_left fun heq => hname ((hover a ha hverb).1 heq)
  · exact (exists_owner_iff hread hc hs).2 ⟨hb.mem, hb.verb, .inr hb.above⟩
  · exact (hover b hb.mem hb.verb).2 hb.above

theorem not_isCreatorAbove_of_head? (hs : (ofCatalogue c).get? s.path.key = some s)
    (hover : c.PassesOver s.path exclude)
    (h : ((ofCatalogue c).creatorsFor s.path exclude).head? = none) :
    ¬ c.IsCreatorAbove s.path a := by
  intro ha
  obtain ⟨owner, howner, hpost⟩ :=
    (exists_owner_iff hread hc hs).2 ⟨ha.mem, ha.verb, .inr ha.above⟩
  obtain ⟨b, hb⟩ := exists_head?_creatorsFor howner hpost ((hover a ha.mem ha.verb).2 ha.above)
  rw [h] at hb
  contradiction

/-- A chain goes on from a `POST` of the catalogue with a nearest creator above it, if there is
one. -/
theorem of_next_creator (ha : a ∈ c.actions) (hverb : a.verb = .post) :
    (∀ next, ((ofCatalogue c).creatorsFor a.path a.name).head? = some next →
      c.IsNearestCreator a.path next) ∧
    (((ofCatalogue c).creatorsFor a.path a.name).head? = none →
      ∀ b, ¬ c.IsCreatorAbove a.path b) := by
  obtain ⟨s, hs, hmem⟩ := offers_of_mem ha
  have hsites := wellFormed_ofCatalogue hread
  have hself := hsites.get?_path_key hs
  have hover := c.passesOver_name hc ha hverb
  rw [path_of_mem_actions hsites hself hmem] at hover ⊢
  exact ⟨fun next h => isNearestCreator_of_head? hread hc hself hover h,
    fun h b => not_isCreatorAbove_of_head? hread hc hself hover h⟩

end Accepted

end Sites

/-! ## The whole chain -/

namespace Catalogue

variable {c : Catalogue} {actions rest : List Action} {first : Action}

/-- The actions are `POST`s of the catalogue, and each but the last is a nearest creator above the
path of the next, which needs a parent. -/
structure Linked (c : Catalogue) (actions : List Action) : Prop where
  posts : ∀ a ∈ actions, a ∈ c.actions ∧ a.verb = .post
  links : actions.IsChain fun outer inner =>
    inner.path.needsParent = true ∧ c.IsNearestCreator inner.path outer

/-- The chain is linked. Its outermost action needs no parent, or it is unresolved, and nothing
creates it. -/
structure Climbs (c : Catalogue) (chain : CreationChain) : Prop extends c.Linked chain.actions where
  outermost : ∀ a, chain.actions.head? = some a → a.path.needsParent = true →
    ∀ b, ¬ c.IsCreatorAbove a.path b
  status : ∀ a, chain.actions.head? = some a →
    chain.status = if a.path.needsParent then .incomplete a.path.key else .complete

/-- The chain climbs from the `POST` on the path, or, where there is none, from a nearest creator above
it. It is empty only where there is neither. -/
structure Creates (c : Catalogue) (path : PathTemplate) (chain : CreationChain) : Prop
    extends c.Climbs chain where
  own : ∀ a ∈ c.actions, a.verb = .post → a.path = path → chain.actions.getLast? = some a
  nearest : (∀ a ∈ c.actions, a.verb = .post → a.path ≠ path) →
    ∀ a, chain.actions.getLast? = some a → c.IsNearestCreator path a
  not_above_of_empty : chain.actions = [] → ∀ a, ¬ c.IsCreatorAbove path a
  status_of_empty : chain.actions = [] →
    chain.status = if path.hasVariables then .incomplete path.key else .complete

theorem Linked.singleton {a : Action} (ha : a ∈ c.actions) (hverb : a.verb = .post) :
    c.Linked [a] :=
  ⟨by simpa using ⟨ha, hverb⟩, .singleton a⟩

/-- A step outwards keeps a chain linked. -/
theorem Linked.cons {next : Action} (h : c.Linked (first :: rest))
    (hparent : first.path.needsParent = true) (hnext : c.IsNearestCreator first.path next) :
    c.Linked (next :: first :: rest) :=
  ⟨List.forall_mem_cons.2 ⟨⟨hnext.mem, hnext.verb⟩, h.posts⟩, .cons_cons ⟨hparent, hnext⟩ h.links⟩

theorem Linked.pairwise (h : c.Linked actions) :
    actions.Pairwise fun outer inner => outer.path.IsStrictPrefix inner.path := by
  have hprefixes : actions.IsChain fun outer inner => outer.path.IsStrictPrefix inner.path :=
    h.links.imp fun _ _ hlink => hlink.2.above
  exact List.pairwise_map.1 ((List.isChain_map Action.path).2 hprefixes).pairwise

/-- **No action is linked twice.** -/
theorem Linked.nodup (hc : c.validate = .ok ()) (h : c.Linked actions) :
    (actions.map Action.name).Nodup := by
  refine List.pairwise_map.2 (h.pairwise.imp_of_mem fun {outer inner} houter hinner hprefix hname => ?_)
  have heq : outer = inner := List.inj_on_of_nodup_map (nodup_names hc) (h.posts outer houter).1
    (h.posts inner hinner).1 hname
  exact Nat.ne_of_lt hprefix.levels_lt (congrArg (fun a : Action => a.path.levels) heq)

theorem Linked.climbs_complete (h : c.Linked (first :: rest))
    (hparent : ¬ first.path.needsParent = true) : c.Climbs ⟨first :: rest, .complete⟩ where
  toLinked := h
  outermost := by
    rintro a ⟨⟩ hneeds
    exact absurd hneeds hparent
  status := by
    rintro a ⟨⟩
    exact (if_neg hparent).symm

theorem Linked.climbs_incomplete (h : c.Linked (first :: rest))
    (hparent : first.path.needsParent = true) (hnone : ∀ b, ¬ c.IsCreatorAbove first.path b) :
    c.Climbs ⟨first :: rest, .incomplete first.path.key⟩ where
  toLinked := h
  outermost := by
    rintro a ⟨⟩ -
    exact hnone
  status := by
    rintro a ⟨⟩
    exact (if_pos hparent).symm

theorem creates_empty {path : PathTemplate}
    (hno : ∀ a ∈ c.actions, a.verb = .post → a.path ≠ path) (hnone : ∀ a, ¬ c.IsCreatorAbove path a) :
    c.Creates path
      (if path.hasVariables then ⟨[], .incomplete path.key⟩ else ⟨[], .complete⟩) := by
  have hempty : (if path.hasVariables then (⟨[], .incomplete path.key⟩ : CreationChain)
      else ⟨[], .complete⟩) =
        ⟨[], if path.hasVariables then .incomplete path.key else .complete⟩ := by
    split <;> rfl
  rw [hempty]
  refine ⟨⟨⟨by simp, .nil⟩, by simp, by simp⟩, fun a ha hverb hpath => ?_, by simp,
    fun _ => hnone, fun _ => rfl⟩
  exact absurd hpath (hno a ha hverb)

end Catalogue

namespace Sites

variable {c : Catalogue} {s : Site} {first : Action} {rest : List Action}

/-- **A linked chain is extended as far outwards as there are creators**, and its last action stays
the last. -/
theorem climbs_extendChain (hread : c.IsRead) (hc : c.validate = .ok ())
    (h : c.Linked (first :: rest)) :
    c.Climbs ((ofCatalogue c).extendChain first rest) ∧
      ((ofCatalogue c).extendChain first rest).actions.getLast? = (first :: rest).getLast? := by
  fun_induction extendChain (ofCatalogue c) first rest with
  | case1 first rest hparent next hnext hlevels ih =>
    obtain ⟨ha, hverb⟩ := h.posts first List.mem_cons_self
    have hnearest := (of_next_creator hread hc ha hverb).1 next hnext
    obtain ⟨hclimbs, hlast⟩ := ih (h.cons hparent hnearest)
    exact ⟨hclimbs, hlast.trans List.getLast?_cons_cons⟩
  | case2 first rest hparent next hnext hlevels =>
    -- a nearest creator is above the path, so it is on a shorter one
    obtain ⟨ha, hverb⟩ := h.posts first List.mem_cons_self
    have hnearest := (of_next_creator hread hc ha hverb).1 next hnext
    exact absurd hnearest.above.levels_lt hlevels
  | case3 first rest hparent hnone =>
    obtain ⟨ha, hverb⟩ := h.posts first List.mem_cons_self
    exact ⟨h.climbs_incomplete hparent ((of_next_creator hread hc ha hverb).2 hnone), rfl⟩
  | case4 first rest hparent => exact ⟨h.climbs_complete hparent, rfl⟩

/-- A chain that is extended from the `POST` on a path, or from a nearest creator above it where
there is none, creates what is on the path. -/
theorem creates_extendChain {path : PathTemplate} (hread : c.IsRead) (hc : c.validate = .ok ())
    (hfirst : first ∈ c.actions) (hverb : first.verb = .post)
    (hown : ∀ a ∈ c.actions, a.verb = .post → a.path = path → a = first)
    (hnearest : (∀ a ∈ c.actions, a.verb = .post → a.path ≠ path) → c.IsNearestCreator path first) :
    c.Creates path ((ofCatalogue c).extendChain first []) := by
  obtain ⟨hclimbs, hlast⟩ := climbs_extendChain hread hc (.singleton hfirst hverb)
  rw [List.getLast?_singleton] at hlast
  have hne : ((ofCatalogue c).extendChain first []).actions ≠ [] := fun h => by simp [h] at hlast
  refine ⟨hclimbs, fun a ha hpost hpath => ?_, fun hno a ha => ?_, fun h => absurd h hne,
    fun h => absurd h hne⟩
  · rw [hlast, hown a ha hpost hpath]
  · obtain rfl : first = a := Option.some.inj (hlast.symm.trans ha)
    exact hnearest hno

theorem creates_chainOf (hread : c.IsRead) (hc : c.validate = .ok ())
    (hs : (ofCatalogue c).get? s.path.key = some s) :
    c.Creates s.path ((ofCatalogue c).chainOf s) := by
  unfold chainOf chainStart?
  cases hpost : s.action? .post with
  | some a =>
    obtain ⟨ha, hverb, hpath⟩ := (action?_eq_some_iff hread hc hs).1 hpost
    refine creates_extendChain hread hc ha hverb (fun b hb hverb' hpath' => ?_) fun hno => ?_
    · have hfound := (action?_eq_some_iff hread hc hs).2 ⟨hb, hverb', hpath'⟩
      exact Option.some.inj (hfound.symm.trans hpost)
    · exact absurd hpath (hno a ha hverb)
  | none =>
    have hno : ∀ a ∈ c.actions, a.verb = .post → a.path ≠ s.path := fun a ha hverb hpath => by
      simp [(action?_eq_some_iff hread hc hs).2 ⟨ha, hverb, hpath⟩] at hpost
    have hover := Catalogue.passesOver_empty hno
    rw [Option.none_or]
    cases hhead : ((ofCatalogue c).creatorsFor s.path "").head? with
    | some a =>
      have hnearest := isNearestCreator_of_head? hread hc hs hover hhead
      exact creates_extendChain hread hc hnearest.mem hnearest.verb
        (fun b hb hverb hpath => absurd hpath (hno b hb hverb)) fun _ => hnearest
    | none =>
      exact Catalogue.creates_empty hno
        fun a => not_isCreatorAbove_of_head? hread hc hs hover hhead

end Sites

/-- **Creation chains climb to the nearest creators.** Every accepted catalogue whose paths were read
has a model. Each of its resources lists the keys of the resources on strict prefixes of its path,
longest first. Its creation chain consists of `POST`s of the catalogue: the last one is its own, or a
nearest above it, and each other one is a nearest creator above the next. The chain is complete if its
outermost path needs no parent, or if it is empty and the resource has no variable; else it names what
nothing creates. Paths get longer along a chain, and no action is in it twice. -/
theorem creation_chains_climb_nearest_creators {c : Catalogue} (hread : c.IsRead)
    (hc : c.validate = .ok ()) :
    ∃ m, ResourceModel.ofCatalogue c = .ok m ∧ ∀ key r, m.get? key = some r →
      (∃ above, r.ancestors = above.map Resource.key ∧ m.IsAbove r above) ∧
      c.Creates r.path r.creation ∧
      (r.creation.actions.Pairwise fun outer inner => outer.path.IsStrictPrefix inner.path) ∧
      (r.creation.actions.map Action.name).Nodup := by
  obtain ⟨m, hm⟩ : ∃ m, ResourceModel.ofCatalogue c = .ok m := ⟨_, bind_eq_ok.2 ⟨(), hc, rfl⟩⟩
  have huse := ResourceModel.inUse_of_ofCatalogue hm
  refine ⟨m, hm, fun key r hr => ?_⟩
  have hs := huse.site_ofCatalogue hr
  rw [← huse.key_eq hr] at hs
  have hcreates := Sites.creates_chainOf hread hc hs
  rw [← huse.creation_eq hr] at hcreates
  exact ⟨huse.exists_above hr, hcreates, hcreates.pairwise, hcreates.nodup hc⟩

open Sample in
/-- Orders are created by their own `POST`, after the users above them. -/
theorem orders_climb_to_users :
    shop.IsRead ∧ shop.validate = .ok () ∧ ∃ m r, ResourceModel.ofCatalogue shop = .ok m ∧
      m.get? "/users/\x7bid\x7d/orders" = some r ∧
      (∃ above, ["/users"] = above.map Resource.key ∧ m.IsAbove r above) ∧
      shop.Creates r.path r.creation ∧ r.creation.status = .complete ∧
      r.creation.actions.map Action.name = ["POST:/users", "POST:/users/\x7bid\x7d/orders"] := by
  have hc : shop.validate = .ok () := Catalogue.validate_eq_ok_iff.2 (by decide +kernel)
  obtain ⟨m, hm, hresources⟩ := creation_chains_climb_nearest_creators isRead_shop hc
  have hshop : ResourceModel.ofCatalogue shop = .ok shopModel :=
    eq_ok_of_isSome_toOption .empty (by decide +kernel)
  obtain rfl : m = shopModel := Except.ok.inj (hm.symm.trans hshop)
  have horders : (shopModel.get? "/users/\x7bid\x7d/orders").map
      (fun r => (r.ancestors, r.creation.status, r.creation.actions.map Action.name)) =
        some (["/users"], .complete, ["POST:/users", "POST:/users/\x7bid\x7d/orders"]) := by
    decide +kernel
  obtain ⟨r, hr, heq⟩ := Option.map_eq_some_iff.1 horders
  simp only [Prod.mk.injEq] at heq
  obtain ⟨hancestors, hstatus, hnames⟩ := heq
  obtain ⟨⟨above, habove, hall⟩, hcreates, -, -⟩ := hresources _ r hr
  exact ⟨isRead_shop, hc, shopModel, r, hm, hr, ⟨above, hancestors ▸ habove, hall⟩, hcreates, hstatus,
    hnames⟩

end RestScenario
