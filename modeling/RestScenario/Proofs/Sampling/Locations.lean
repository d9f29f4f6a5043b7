import Mathlib.Data.List.Chain
import RestScenario.Proofs.Sampling.Size

/-!
# Locations along a creation

An action after a shorter path refers to the location that the creation before it saves; an action
on the same path refers to the same location. The locations are linked outermost first, and each
link changes the action that the next one starts from (`isChain_chainLocations`). As every creator
is on an ancestor of what it creates or on the same path, a location that an action of a call refers
to is saved before it, by a `POST` on a true ancestor (`ResourceModel.created_of_gives_build`).
-/

namespace RestScenario

namespace Action

/-- The one action may come right before the other in a creation. -/
def Creates (outer inner : Action) : Prop :=
  outer.verb = .post ∧ (outer.path = inner.path ∨ outer.path.isAncestorOf inner.path = true)

/-- The location of an action as that of the one before it tells: the same on equivalent paths, else
the path of the one before. -/
def Follows (outer inner : Action) : Prop :=
  if outer.path.isEquivalent inner.path = true then inner.locationId = outer.locationId
  else inner.locationId = some outer.path.key

/-- The action saves the location that another one refers to. -/
def Locates (p a : Action) (location : String) : Prop :=
  p.verb = .post ∧ p.savesLocation = true ∧ p.path.key = location ∧ p.path.isAncestorOf a.path = true

/-- Two actions of a creation with linked locations. -/
structure Linked (outer inner : Action) : Prop where
  creates : outer.Creates inner
  follows : outer.Follows inner
  saves : outer.path.isEquivalent inner.path ≠ true → outer.savesLocation = true

variable {a b : Action}

theorem Creates.congr {a' b' : Action} (h : a.Creates b) (hverb : a'.verb = a.verb)
    (hpath : a'.path = a.path) (hpath' : b'.path = b.path) : a'.Creates b' := by
  unfold Creates
  rw [hverb, hpath, hpath']
  exact h

theorem Creates.path_eq (h : a.Creates b) (hequivalent : a.path.isEquivalent b.path = true) :
    a.path = b.path :=
  h.2.resolve_right fun hancestor =>
    PathTemplate.not_isEquivalent_of_isAncestorOf hancestor hequivalent

theorem Creates.isAncestorOf (h : a.Creates b) (hne : ¬ a.path.isEquivalent b.path = true) :
    a.path.isAncestorOf b.path = true :=
  h.2.resolve_left fun heq => hne (heq ▸ a.path.isEquivalent_refl)

/-- The second of two linked actions may save a location of its own. -/
theorem Linked.congr {b' : Action} (h : a.Linked b) (hpath : b'.path = b.path)
    (hlocation : b'.locationId = b.locationId) : a.Linked b' := by
  refine ⟨h.creates.congr rfl rfl hpath, ?_, ?_⟩
  · have := h.follows
    unfold Follows at this ⊢
    rwa [hpath, hlocation]
  · rw [hpath]
    exact h.saves

end Action

open RestScenario.Action

/-! ## Linking -/

section Linking

variable {a b x : Action} {actions rest : List Action}

theorem linked_linkLocations (h : a.Creates b) :
    (linkLocations a b).1.Linked (linkLocations a b).2 ∧
      (linkLocations a b).1.locationId = a.locationId := by
  unfold linkLocations
  by_cases hequivalent : a.path.isEquivalent b.path = true
  · rw [if_pos hequivalent]
    refine ⟨⟨h, ?_, fun hne => absurd hequivalent hne⟩, rfl⟩
    unfold Follows
    rw [if_pos hequivalent]
  · rw [if_neg hequivalent]
    refine ⟨⟨h, ?_, fun _ => rfl⟩, rfl⟩
    unfold Follows
    rw [if_neg hequivalent]

theorem isChain_chainLocations (h : (a :: rest).IsChain Creates) :
    (chainLocations a rest).IsChain Linked ∧ ∃ first more, chainLocations a rest = first :: more ∧
      first.path = a.path ∧ first.locationId = a.locationId := by
  induction rest generalizing a with
  | nil => exact ⟨.singleton a, a, [], rfl, rfl, rfl⟩
  | cons b rest ih =>
    obtain ⟨hcreates, hrest⟩ := List.isChain_cons_cons.1 h
    obtain ⟨houter, hinner⟩ := @signature_linkLocations a b
    obtain ⟨-, hpath, -⟩ := Action.signature_eq_iff.1 houter
    obtain ⟨hverb', hpath', -⟩ := Action.signature_eq_iff.1 hinner
    obtain ⟨hlinked, hlocation⟩ := linked_linkLocations hcreates
    have hrest : ((linkLocations a b).2 :: rest).IsChain Creates :=
      hrest.imp_head fun hx => hx.congr hverb' hpath' rfl
    obtain ⟨chain, first, more, hfirst, hfirstPath, hfirstLocation⟩ := ih hrest
    refine ⟨?_, (linkLocations a b).1, _, rfl, hpath, hlocation⟩
    show ((linkLocations a b).1 :: chainLocations (linkLocations a b).2 rest).IsChain Linked
    rw [hfirst] at chain ⊢
    exact chain.cons_cons (hlinked.congr hfirstPath hfirstLocation)

theorem isChain_linkCreation {target : Action} {creators : List Action}
    (h : (target :: creators).IsChain fun inner outer => outer.Creates inner)
    (hnone : ∀ x ∈ target :: creators, x.locationId = none) :
    (linkCreation target creators).IsChain Linked ∧
      ∀ first ∈ (linkCreation target creators).head?, first.locationId = none := by
  have order : creators.reverse ++ [target] = (target :: creators).reverse := by simp
  have hchain : (creators.reverse ++ [target]).IsChain Creates := by
    rw [order]
    exact List.isChain_reverse.2 h
  have hnone : ∀ x ∈ creators.reverse ++ [target], x.locationId = none := by
    intro x hx
    rw [order, List.mem_reverse] at hx
    exact hnone x hx
  unfold linkCreation
  cases hactions : creators.reverse ++ [target] with
  | nil => simp at hactions
  | cons a rest =>
    rw [hactions] at hchain hnone
    obtain ⟨linked, first, more, hfirst, -, hlocation⟩ := isChain_chainLocations hchain
    refine ⟨linked, fun x hx => ?_⟩
    obtain rfl : first = x := by simpa [hfirst] using hx
    exact hlocation.trans (hnone a List.mem_cons_self)

/-! ## Saved locations -/

/-- Each location that an action refers to is saved by an action before it. -/
def LocationsSaved (actions : List Action) : Prop :=
  ∀ before a after, actions = before ++ a :: after → ∀ location, a.locationId = some location →
    ∃ p ∈ before, p.Locates a location

/-- A location is saved anew at a link, or refers to what saved it before. -/
theorem locationsSaved_of_isChain (before : List Action)
    (hfirst : ∀ location, x.locationId = some location → ∃ p ∈ before, p.Locates x location)
    (h : (x :: rest).IsChain Linked) (middle : List Action) (a : Action) (after : List Action)
    (hsplit : x :: rest = middle ++ a :: after) (location : String)
    (hlocation : a.locationId = some location) : ∃ p ∈ before ++ middle, p.Locates a location := by
  induction rest generalizing before x middle with
  | nil =>
    obtain ⟨rfl, hx⟩ : middle = [] ∧ x = a := by
      cases middle <;> simp_all
    rw [List.append_nil, ← hx]
    exact hfirst location (hx ▸ hlocation)
  | cons y rest ih =>
    cases middle with
    | nil =>
      obtain rfl : x = a := (List.cons.inj hsplit).1
      rw [List.append_nil]
      exact hfirst location hlocation
    | cons x' middle =>
      obtain ⟨rfl, hrestSplit⟩ := List.cons.inj hsplit
      obtain ⟨hlinked, hrest⟩ := List.isChain_cons_cons.1 h
      have hsecond : ∀ location, y.locationId = some location →
          ∃ p ∈ before ++ [x], p.Locates y location := by
        intro location hy
        have hfollows := hlinked.follows
        unfold Follows at hfollows
        split at hfollows
        · rename_i hequivalent
          obtain ⟨p, hp, hverb, hsaves, hkey, hancestor⟩ := hfirst location (hfollows ▸ hy)
          rw [hlinked.creates.path_eq hequivalent] at hancestor
          exact ⟨p, List.mem_append_left _ hp, hverb, hsaves, hkey, hancestor⟩
        · rename_i hne
          refine ⟨x, by simp, hlinked.creates.1, hlinked.saves hne, ?_,
            hlinked.creates.isAncestorOf hne⟩
          exact Option.some.inj (hfollows.symm.trans hy)
      obtain ⟨p, hp, hlocates⟩ := ih (before ++ [x]) hsecond hrest middle hrestSplit
      exact ⟨p, by simpa using hp, hlocates⟩

theorem LocationsSaved.of_isChain (h : actions.IsChain Linked)
    (hnone : ∀ first ∈ actions.head?, first.locationId = none) : LocationsSaved actions := by
  intro before a after hsplit location hlocation
  cases actions with
  | nil => simp at hsplit
  | cons x rest =>
    refine locationsSaved_of_isChain [] ?_ h before a after hsplit location hlocation
    rw [hnone x rfl]
    simp

/-- An action may be repeated on the path and with the location of the last one. -/
theorem LocationsSaved.concat (h : LocationsSaved actions)
    (hlast : ∃ last ∈ actions.getLast?, x.path = last.path ∧ x.locationId = last.locationId) :
    LocationsSaved (actions ++ [x]) := by
  intro before a after hsplit location hlocation
  rcases List.eq_nil_or_concat after with rfl | ⟨after, x', rfl⟩
  · obtain ⟨rfl, hx⟩ := List.append_inj' hsplit rfl
    obtain rfl : x = a := by simpa using hx
    obtain ⟨last, hmem, hpath, hlast⟩ := hlast
    obtain ⟨front, rfl⟩ : ∃ front, actions = front ++ [last] :=
      List.getLast?_eq_some_iff.1 hmem
    obtain ⟨p, hp, hlocates⟩ := h front last [] rfl location (hlast ▸ hlocation)
    refine ⟨p, List.mem_append_left _ hp, ?_⟩
    unfold Locates at hlocates ⊢
    rwa [hpath]
  · have hsplit : actions ++ [x] = (before ++ a :: after) ++ [x'] := by simpa using hsplit
    obtain ⟨rfl, -⟩ := List.append_inj' hsplit rfl
    exact h before a after rfl location hlocation

/-- Outlines tell whether locations are saved. -/
theorem locationsSaved_of_outline (h : LocationsSaved (actions.map Action.outline)) :
    LocationsSaved actions := by
  intro before a after hsplit location hlocation
  obtain ⟨p, hp, hlocates⟩ := h (before.map outline) a.outline (after.map outline)
    (by simp [hsplit]) location hlocation
  obtain ⟨q, hq, rfl⟩ := List.mem_map.1 hp
  exact ⟨q, hq, hlocates⟩

theorem locationsSaved_outline (h : LocationsSaved actions) :
    LocationsSaved (actions.map Action.outline) := by
  intro before a after hsplit location hlocation
  obtain ⟨before, rest, rfl, rfl, hrest⟩ := List.map_eq_append_iff.1 hsplit
  obtain ⟨a, after, rfl, rfl, rfl⟩ := List.map_eq_cons_iff.1 hrest
  obtain ⟨p, hp, hlocates⟩ := h before a after rfl location hlocation
  exact ⟨p.outline, List.mem_map_of_mem hp, hlocates⟩

end Linking

/-! ## Planned creations -/

/-- No action of the catalogue refers to a location. -/
def Catalogue.IsUnlinked (c : Catalogue) : Prop := ∀ a ∈ c.actions, a.locationId = none

/-- The creating actions at the start of a call, and the action after them. -/
def Call.createdPart (c : Call) : List Action :=
  c.actions.takeWhile (·.verb = .post) ++ (c.actions.dropWhile (·.verb = .post)).take 1

section Planning

variable {c : Catalogue} {sites : Sites} {m : ResourceModel} {options : SamplingOptions}
  {a entry : Action} {planned : Nat} {key name : String} {verbs : List Verb} {call : Call}
  {source source' : Random.Source} {p : CallParts}

/-- The creators that are planned are offered, and each creates the one before it. -/
theorem isChain_creationPlan (hsites : sites.WellFormed) (ha : sites.Offers a) :
    (a :: (creationPlan sites options a planned).1).IsChain (fun inner outer => outer.Creates inner)
      ∧ ∀ b ∈ (creationPlan sites options a planned).1, sites.Offers b ∧ b.verb = .post := by
  induction a, planned using creationPlan.induct sites options with
  | case1 a planned hfree =>
    rw [creationPlan, if_pos hfree]
    exact ⟨.singleton a, by simp⟩
  | case2 a planned hneeds hfull =>
    rw [creationPlan, if_neg hneeds, if_pos hfull]
    exact ⟨.singleton a, by simp⟩
  | case3 a planned hneeds hroom hnone =>
    rw [creationPlan, if_neg hneeds, if_neg hroom, hnone]
    exact ⟨.singleton a, by simp⟩
  | case4 a planned hneeds hroom creator hcreator hrank outer nested hplan ih =>
    have hmem := List.mem_of_mem_head? hcreator
    obtain ⟨hoffers, hpath⟩ := Sites.of_creator_of_offers hsites ha hmem
    have hpost := Sites.verb_of_mem_creatorsFor hmem
    obtain ⟨hchain, houter⟩ := ih hoffers
    rw [creationPlan, if_neg hneeds, if_neg hroom, hcreator]
    dsimp only
    rw [if_pos hrank]
    rw [hplan] at hchain houter ⊢
    exact ⟨hchain.cons_cons ⟨hpost, hpath⟩, List.forall_mem_cons.2 ⟨⟨hoffers, hpost⟩, houter⟩⟩
  | case5 a planned hneeds hroom creator hcreator hrank =>
    rw [creationPlan, if_neg hneeds, if_neg hroom, hcreator]
    dsimp only
    rw [if_neg hrank]
    exact ⟨.singleton a, by simp⟩

namespace ResourceModel

theorem isChain_plannedCreators (hsites : m.sites.WellFormed) (ha : m.sites.Offers entry) :
    (entry :: m.plannedCreators options verbs entry).IsChain (fun inner outer => outer.Creates inner)
      ∧ ∀ b ∈ m.plannedCreators options verbs entry, m.sites.Offers b ∧ b.verb = .post := by
  unfold plannedCreators
  split
  · exact isChain_creationPlan hsites ha
  · exact ⟨.singleton entry, by simp⟩

theorem InUse.wellFormed (hm : m.InUse c) (hread : c.IsRead) : m.sites.WellFormed := by
  rw [hm.sites_eq]
  exact Sites.wellFormed_ofCatalogue hread

/-- A template aims at an offered action. -/
theorem InUse.offers_of_targetOf (hm : m.InUse c) (hread : c.IsRead)
    (h : m.targetOf key verbs = .ok entry) : m.sites.Offers entry := by
  have hsites := hm.wellFormed hread
  have own : ∀ {r v}, m.get? key = some r → r.action? v = some entry → m.sites.Offers entry :=
    fun hr hown => Sites.offers_of_mem_actions hsites (hm.site hr) (Sites.mem_of_action? hown)
  rcases targetOf_eq_ok h with ⟨v, -, hv⟩ | ⟨-, r, hr, hfirst⟩
  · obtain ⟨r, hr, hown⟩ := actionOf_eq_ok hv
    exact own hr hown
  · rcases Option.or_eq_some_iff.1 hfirst with hown | ⟨-, hcreator⟩
    · exact own hr hown
    · have hs := hm.site hr
      have hself := hsites.get?_path_key hs
      exact Sites.offers_of_mem_creatorsFor hsites (List.mem_of_mem_head? hcreator)

theorem locationId_of_offers (hm : m.InUse c) (hunlinked : c.IsUnlinked) (ha : m.sites.Offers a) :
    a.locationId = none := by
  rw [hm.sites_eq] at ha
  exact hunlinked a (Sites.mem_of_offers ha)

end ResourceModel

/-- Only a target other than `POST` is told apart from what follows it. -/
theorem takeWhile_created {posts extra : List Action} {last : Action}
    (hposts : ∀ p ∈ posts, p.verb = .post) (hextra : last.verb = .post → extra = []) :
    (posts ++ [last] ++ extra).takeWhile (·.verb = .post) ++
      ((posts ++ [last] ++ extra).dropWhile (·.verb = .post)).take 1 = posts ++ [last] := by
  rw [List.append_assoc, List.takeWhile_append_of_pos (by simpa using hposts),
    List.dropWhile_append_of_pos (by simpa using hposts)]
  by_cases hlast : last.verb = .post
  · simp [hlast, hextra hlast]
  · simp [hlast]

namespace ResourceModel

/-- A `PATCH` is repeated only after a `PATCH`. -/
theorem InUse.actionOf_patch (hm : m.InUse c) {t : Template} (ht : m.template key name = .ok t)
    (hverbs : t.verbs? = some verbs) (hentry : m.targetOf key verbs = .ok entry)
    (hcreating : t.independent = false) (hpatch : t.lists .patch = true) :
    m.actionOf key .patch = .ok entry := by
  obtain ⟨r, hr, ht⟩ := template_eq_ok ht
  obtain ⟨-, ⟨v, -, -, -, hindependent⟩ | ⟨rest, -, hlisted, hrest, -⟩⟩ := hm.template hr ht
  · exact absurd (hcreating.symm.trans hindependent) Bool.false_ne_true
  · obtain rfl := Option.some.inj (hlisted.symm.trans hverbs)
    rw [hrest hpatch] at hentry
    rcases targetOf_eq_ok hentry with ⟨v, hfind, hv⟩ | ⟨hnone, -⟩
    · obtain rfl : .patch = v := Option.some.inj hfind
      exact hv
    · contradiction

/-- Where no verb follows the target, a further `PATCH` repeats it at most. -/
theorem Assembles.last_eq (h : m.Assembles key name options p call) (hm : m.InUse c) :
    p.last = [] ∨ p.entry.verb = .patch ∧ ∃ source, p.last =
      [{ (p.entry.randomize.run source).1.follow p.target with locationId := p.target.locationId }] := by
  refine h.last.imp id fun ⟨⟨hcreating, hpatch, _⟩, hlast⟩ => ?_
  obtain ⟨x, nothing, ⟨a, source, ha, rfl⟩, hnothing, heq⟩ := List.forall₂_cons_left_iff.1 hlast
  obtain rfl := List.forall₂_nil_left_iff.1 hnothing
  have hentry := hm.actionOf_patch h.template h.verbs h.entry hcreating hpatch
  obtain rfl : a = p.entry := Except.ok.inj (ha.symm.trans hentry)
  obtain ⟨r, -, hown⟩ := actionOf_eq_ok hentry
  exact ⟨Sites.verb_of_action? hown, source, heq⟩

/-- A built call consists of the actions up to its target and at most a further `PATCH`. -/
theorem Assembles.actions_eq (h : m.Assembles key name options p call) (hm : m.InUse c) :
    call.actions = p.created ++ p.last := by
  rw [h.call_eq]
  show p.created ++ p.rest ++ p.last = _
  rw [h.rest_eq (hm.nothing_follows h.template h.verbs), List.append_nil]

/-- What is planned for the target of a call is offered, link by link. -/
theorem Assembles.isChain_planned (h : m.Assembles key name options p call) (hm : m.InUse c)
    (hread : c.IsRead) :
    (p.entry :: m.plannedCreators options p.verbs p.entry).IsChain
        (fun inner outer => outer.Creates inner) ∧
      ∀ b ∈ m.plannedCreators options p.verbs p.entry, m.sites.Offers b ∧ b.verb = .post :=
  isChain_plannedCreators (hm.wellFormed hread) (hm.offers_of_targetOf hread h.entry)

/-- The target is the action right after the creating ones at the start of a call. -/
theorem Assembles.createdPart_eq (h : m.Assembles key name options p call) (hm : m.InUse c)
    (hread : c.IsRead) : call.createdPart = p.created := by
  obtain ⟨posts, hcreated, htarget, hfront⟩ := p.exists_created
  have hposts : ∀ x ∈ posts, x.verb = .post := by
    intro x hx
    obtain ⟨b, hb, hsame⟩ := hfront x hx
    have hmem : b.outline ∈ (m.plannedCreators options p.verbs p.entry).map Action.outline :=
      h.outline_posts ▸ List.mem_map_of_mem hb
    obtain ⟨b', hb', heq⟩ := List.mem_map.1 hmem
    calc x.verb = b.verb := (congrArg Action.verb hsame :)
      _ = b'.verb := (congrArg Action.verb heq.symm :)
      _ = .post := ((h.isChain_planned hm hread).2 b' hb').2
  have hverb : p.target.verb = p.entry.verb := by
    calc p.target.verb = p.drawn.verb := (congrArg Action.verb htarget :)
      _ = p.entry.verb := (congrArg Action.verb h.blank_drawn :)
  unfold Call.createdPart
  rw [h.actions_eq hm, hcreated]
  refine takeWhile_created hposts fun hpost => (h.last_eq hm).resolve_right ?_
  rintro ⟨hpatch, -⟩
  rw [hverb, hpatch] at hpost
  contradiction

/-- **What a built call consists of**: its creation with linked locations, and a repeated action at
most. -/
theorem created_of_gives_build (hm : m.InUse c) (hread : c.IsRead) (hunlinked : c.IsUnlinked)
    (h : Gives (m.build key name options) source call source') :
    ∃ created extra : List Action, call.outline = created ++ extra ∧
      call.createdPart.map Action.outline = created ∧ created.IsChain Action.Linked ∧
      (∀ first ∈ created.head?, first.locationId = none) ∧
      (extra = [] ∨ ∃ x, extra = [x] ∧
        ∃ last ∈ created.getLast?, x.path = last.path ∧ x.locationId = last.locationId) := by
  obtain ⟨p, hp⟩ := exists_parts h
  obtain ⟨hchain, hplanned⟩ := hp.isChain_planned hm hread
  have hnone : ∀ x ∈ (p.entry :: m.plannedCreators options p.verbs p.entry).map Action.outline,
      x.locationId = none := by
    intro x hx
    obtain ⟨a, ha, rfl⟩ := List.mem_map.1 hx
    have hoffers : m.sites.Offers a := List.forall_mem_cons.2
      ⟨hm.offers_of_targetOf hread hp.entry, fun b hb => (hplanned b hb).1⟩ a ha
    have hlocation : a.locationId = none := locationId_of_offers hm hunlinked hoffers
    exact hlocation
  obtain ⟨hlinked, hfirst⟩ := isChain_linkCreation
    ((List.isChain_map Action.outline (l := p.entry :: _)).2 hchain) hnone
  rw [← hp.outline_created] at hlinked hfirst
  refine ⟨_, p.last.map Action.outline, ?_, congrArg _ (hp.createdPart_eq hm hread), hlinked, hfirst,
    ?_⟩
  · rw [← List.map_append, ← hp.actions_eq hm]
    rfl
  · rcases hp.last_eq hm with hlast | ⟨-, s, hlast⟩
    · exact .inl (congrArg _ hlast)
    · obtain ⟨posts, hcreated, htarget, -⟩ := p.exists_created
      refine .inr ⟨_, congrArg _ hlast, p.target.outline, by simp [hcreated], ?_, rfl⟩
      calc p.entry.path = p.drawn.path := (congrArg Action.path hp.blank_drawn.symm :)
        _ = p.target.path := (congrArg Action.path htarget.symm :)

/-- Every location that an action of a built call refers to is saved before it. -/
theorem locationsSaved_of_gives_build (hm : m.InUse c) (hread : c.IsRead)
    (hunlinked : c.IsUnlinked) (h : Gives (m.build key name options) source call source') :
    LocationsSaved call.actions := by
  obtain ⟨created, extra, houtline, -, hlinked, hfirst, hextra⟩ :=
    created_of_gives_build hm hread hunlinked h
  have saved : LocationsSaved created := .of_isChain hlinked hfirst
  refine locationsSaved_of_outline ?_
  show LocationsSaved call.outline
  rw [houtline]
  rcases hextra with rfl | ⟨x, rfl, hlast⟩
  · rwa [List.append_nil]
  · exact saved.concat hlast

/-- The locations of the created part of a built call follow one another. -/
theorem isChain_createdPart_of_gives_build (hm : m.InUse c) (hread : c.IsRead)
    (hunlinked : c.IsUnlinked) (h : Gives (m.build key name options) source call source') :
    call.createdPart.IsChain Action.Follows := by
  obtain ⟨created, extra, -, hcreated, hlinked, -⟩ :=
    created_of_gives_build hm hread hunlinked h
  have follows : created.IsChain Action.Follows := hlinked.imp fun a b hab => hab.follows
  rw [← hcreated] at follows
  exact (List.isChain_map Action.outline).1 follows

end ResourceModel

end Planning

end RestScenario
