import RestScenario.Proofs.Computation
import RestScenario.Proofs.Outline
import RestScenario.Proofs.Sampling.Creation

/-!
# Building a call that creates

Drawing values shows in no outline, and linking locations in no name. So the names of a call are
settled by the plan of its creation (`yields_build`), and so is its outline (`of_gives_build`).

What `build` does is said once: a call that it gives consists of parts that were found, planned and
drawn (`ResourceModel.exists_parts`). What is shown of built calls is read off these parts.
-/

namespace RestScenario

open RestScenario.Random

/-! ## Names stay -/

section Names

variable {a b target : Action} {creators rest : List Action} {source : Source}

theorem verb_randomize : (a.randomize.run source).1.verb = a.verb := rfl

theorem path_randomize : (a.randomize.run source).1.path = a.path := rfl

theorem outline_drawCreators :
    ((drawCreators target creators).run source).1.map Action.outline =
      creators.map Action.outline := by
  induction creators generalizing target source with
  | nil => rfl
  | cons creator outer ih =>
    have post : (((creator.randomize.run source).1).followPath target).outline = creator.outline :=
      (Action.outline_of_blank Action.blank_followPath).trans Action.outline_randomize
    exact congrArg₂ List.cons post ih

theorem names_drawCreators :
    ((drawCreators target creators).run source).1.map Action.name = creators.map Action.name := by
  have names := congrArg (List.map Action.name) (@outline_drawCreators target creators source)
  rwa [List.map_map, List.map_map] at names

section Image

variable {β : Type} {f : Action → β}
  (hf : ∀ (a : Action) saves location,
    f { a with savesLocation := saves, locationId := location } = f a)
include hf

/-- What locations do not tell of an action stays when they are linked. -/
theorem image_linkLocations :
    f (linkLocations a b).1 = f a ∧ f (linkLocations a b).2 = f b := by
  unfold linkLocations
  split
  · exact ⟨rfl, hf b b.savesLocation _⟩
  · exact ⟨hf a _ a.locationId, hf b b.savesLocation _⟩

theorem map_chainLocations : (chainLocations a rest).map f = (a :: rest).map f := by
  induction rest generalizing a with
  | nil => rfl
  | cons b rest ih =>
    obtain ⟨houter, hinner⟩ := @image_linkLocations a b _ f hf
    show f (linkLocations a b).1 :: (chainLocations (linkLocations a b).2 rest).map f = _
    rw [ih, List.map_cons, List.map_cons, List.map_cons, houter, hinner]

theorem map_linkCreation :
    (linkCreation target creators).map f = (creators.reverse ++ [target]).map f := by
  unfold linkCreation
  split
  · rename_i hnil
    rw [hnil]
  · rename_i hcons
    rw [hcons, map_chainLocations hf]

end Image

/-- The action without its locations. -/
def Action.unlocated (a : Action) : Action := { a with savesLocation := false, locationId := none }

theorem signature_linkLocations :
    (linkLocations a b).1.signature = a.signature ∧
      (linkLocations a b).2.signature = b.signature := image_linkLocations fun _ _ _ => rfl

theorem names_linkCreation :
    (linkCreation target creators).map Action.name =
      (creators.reverse ++ [target]).map Action.name := map_linkCreation fun _ _ _ => rfl

/-! ## Outlines stay -/

theorem outline_linkLocations :
    linkLocations a.outline b.outline =
      ((linkLocations a b).1.outline, (linkLocations a b).2.outline) := by
  unfold linkLocations
  by_cases h : a.path.isEquivalent b.path = true <;> simp [Action.outline, Action.blank, h]

theorem outline_chainLocations :
    (chainLocations a rest).map Action.outline =
      chainLocations a.outline (rest.map Action.outline) := by
  induction rest generalizing a with
  | nil => rfl
  | cons b rest ih =>
    rw [List.map_cons, chainLocations, chainLocations, outline_linkLocations]
    exact congrArg _ ih

theorem outline_linkCreation :
    (linkCreation target creators).map Action.outline =
      linkCreation target.outline (creators.map Action.outline) := by
  have order : (creators.map Action.outline).reverse ++ [target.outline] =
      (creators.reverse ++ [target]).map Action.outline := by simp
  unfold linkCreation
  rw [order]
  cases creators.reverse ++ [target] with
  | nil => rfl
  | cons first rest => exact outline_chainLocations

theorem length_linkCreation : (linkCreation target creators).length = creators.length + 1 := by
  have names := congrArg List.length (@names_linkCreation target creators)
  simpa using names

end Names

/-! ## Building -/

/-- What is found, planned and drawn on the way to a call. -/
structure CallParts where
  template : Template
  verbs : List Verb
  /-- The declared action that the template aims at. -/
  entry : Action
  /-- The same with its values. -/
  drawn : Action
  /-- The creators with their values, nearest first. -/
  posts : List Action
  /-- The actions after the target. -/
  rest : List Action
  /-- A further `PATCH`, if any. -/
  last : List Action

namespace CallParts

/-- The actions up to the target, outermost first. -/
def created (p : CallParts) : List Action := linkCreation p.drawn p.posts

/-- The target with its location. -/
def target (p : CallParts) : Action := p.created.getLast?.getD p.drawn

/-- Linking the creation adds locations and nothing else. -/
theorem exists_created (p : CallParts) : ∃ posts, p.created = posts ++ [p.target] ∧
    p.target.unlocated = p.drawn.unlocated ∧
    ∀ x ∈ posts, ∃ b ∈ p.posts, x.unlocated = b.unlocated := by
  have image : p.created.map Action.unlocated = (p.posts.reverse ++ [p.drawn]).map Action.unlocated :=
    map_linkCreation fun _ _ _ => rfl
  rw [List.map_append] at image
  obtain ⟨posts, tail, hsplit, hfront, htail⟩ := List.map_eq_append_iff.1 image
  obtain ⟨last, nothing, rfl, hlast, hnothing⟩ := List.map_eq_cons_iff.1 htail
  obtain rfl := List.map_eq_nil_iff.1 hnothing
  have htarget : p.target = last := by
    unfold target
    simp [hsplit]
  refine ⟨posts, htarget ▸ hsplit, htarget ▸ hlast, fun x hx => ?_⟩
  have hmem : x.unlocated ∈ p.posts.reverse.map Action.unlocated := hfront ▸ List.mem_map_of_mem hx
  obtain ⟨b, hb, heq⟩ := List.mem_map.1 hmem
  exact ⟨b, List.mem_reverse.1 hb, heq.symm⟩

end CallParts

namespace ResourceModel

variable {m : ResourceModel} {key name : String} {r : Resource} {t : Template}
  {options : SamplingOptions} {entry : Action} {rest : List Verb}

theorem resource_eq_ok_iff : m.resource key = .ok r ↔ m.get? key = some r := by
  unfold resource
  cases m.get? key with
  | none => simp
  | some r' => simp

theorem resource_eq (hr : m.get? key = some r) : m.resource key = .ok r := resource_eq_ok_iff.2 hr

theorem template_eq (hr : m.get? key = some r) (ht : r.templates.get? name = some t) :
    m.template key name = .ok t := by
  unfold template
  rw [resource_eq hr]
  simp only [bind, Except.bind, ht]

theorem actionOf_eq_ok {v : Verb} {a : Action} (h : m.actionOf key v = .ok a) :
    ∃ r, m.get? key = some r ∧ r.action? v = some a := by
  obtain ⟨r, hr, h⟩ := bind_eq_ok.1 h
  refine ⟨r, resource_eq_ok_iff.1 hr, ?_⟩
  split at h
  · rename_i b hb
    exact hb.trans (congrArg some (Except.ok.inj h))
  · cases h

theorem template_eq_ok (h : m.template key name = .ok t) :
    ∃ r, m.get? key = some r ∧ r.templates.get? name = some t := by
  obtain ⟨r, hr, h⟩ := bind_eq_ok.1 h
  refine ⟨r, resource_eq_ok_iff.1 hr, ?_⟩
  split at h
  · rename_i t' ht
    exact ht.trans (congrArg some (Except.ok.inj h))
  · cases h

theorem targetOf_eq_ok {verbs : List Verb} (h : m.targetOf key verbs = .ok entry) :
    (∃ v, verbs.find? (· ≠ .post) = some v ∧ m.actionOf key v = .ok entry) ∨
      verbs.find? (· ≠ .post) = none ∧ ∃ r, m.get? key = some r ∧
        (r.action? .post).or (m.sites.creatorsFor r.path "").head? = some entry := by
  unfold targetOf at h
  cases hfind : verbs.find? (· ≠ .post) with
  | some v =>
    rw [hfind] at h
    exact .inl ⟨v, rfl, h⟩
  | none =>
    rw [hfind] at h
    obtain ⟨r, hr, h⟩ := bind_eq_ok.1 h
    refine .inr ⟨rfl, r, resource_eq_ok_iff.1 hr, ?_⟩
    split at h
    · rename_i a hfirst
      exact hfirst.trans (congrArg some (Except.ok.inj h))
    · cases h

theorem gives_wantsExtraPatch {source : Source} {length : Nat} (h : options.extraPatch = 0.0) :
    Gives (liftM (wantsExtraPatch options t length) : Drawing Bool) source false source := by
  have none : wantsExtraPatch options t length = pure false := by
    unfold wantsExtraPatch
    rw [h, if_neg]
    rw [Bool.and_eq_true]
    exact fun hand => absurd hand.2 (by decide)
  rw [none]
  rfl

/-- **The names of a call that creates** are those of its planned creation and of its target. -/
theorem yields_build (source : Source) (ht : m.template key name = .ok t)
    (hverbs : t.verbs? = some (.post :: rest)) (hrest : rest = [] ∨ ∃ v, v ≠ .post ∧ rest = [v])
    (hentry : m.targetOf key (.post :: rest) = .ok entry) (hcreate : options.create = true)
    (hextra : options.extraPatch = 0.0) :
    Yields (m.build key name options) source fun call =>
      call.actionNames =
        ((creationPlan m.sites options entry 1).1.reverse ++ [entry]).map Action.name := by
  have nothing_follows : ((Verb.post :: rest).dropWhile (· = .post)).drop 1 = [] := by
    rcases hrest with rfl | ⟨v, hv, rfl⟩
    · rfl
    · simp [hv]
  unfold build
  refine yields_bind (gives_liftExcept ht) ?_
  rw [hverbs]
  refine yields_bind (gives_pure.2 ⟨rfl, rfl⟩) ?_
  refine yields_bind (gives_liftExcept hentry) ?_
  refine yields_bind (gives_liftState _ _) ?_
  rw [if_pos (by simp [hcreate])]
  refine yields_bind (gives_liftState _ _) ?_
  rw [nothing_follows]
  refine yields_bind (gives_pure.2 ⟨rfl, rfl⟩) ?_
  refine yields_bind (gives_wantsExtraPatch hextra) ?_
  rw [if_neg Bool.false_ne_true]
  refine yields_bind (gives_pure.2 ⟨rfl, rfl⟩) ?_
  refine yields_pure ?_
  show ((linkCreation _ _ ++ [] ++ []).map Action.name) = _
  rw [List.append_nil, List.append_nil, names_linkCreation, List.map_append, List.map_append,
    List.map_reverse, List.map_reverse, names_drawCreators,
    creationPlan_congr verb_randomize path_randomize]
  rfl

/-- The creators that are planned for the target of a template. -/
def plannedCreators (m : ResourceModel) (options : SamplingOptions) (verbs : List Verb)
    (entry : Action) : List Action :=
  if options.create && verbs.head? = some .post then (creationPlan m.sites options entry 1).1
  else []

/-- An action after a creation: a `PATCH` on the resource with the location of the target. It takes
a template that creates and lists `PATCH`, and room for one action more. -/
def IsExtraPatch (m : ResourceModel) (key : String) (options : SamplingOptions) (t : Template)
    (created : List Action) (entry extra : Action) : Prop :=
  t.independent = false ∧ t.lists .patch = true ∧ created.length < options.budget ∧
    ∃ a, m.actionOf key .patch = .ok a ∧ extra =
      { a.outline with locationId := ((created.getLast?).getD entry.outline).locationId }

theorem of_gives_wantsExtraPatch {source source' : Source} {length : Nat} {b : Bool}
    (h : Gives (liftM (wantsExtraPatch options t length) : Drawing Bool) source b source') :
    b = true → t.independent = false ∧ t.lists .patch = true ∧ length < options.budget := by
  rintro rfl
  have run := gives_liftState_iff.1 h
  unfold wantsExtraPatch at run
  split at run
  · rename_i hwants
    simp only [Bool.and_eq_true, Bool.not_eq_true', decide_eq_true_eq] at hwants
    exact ⟨hwants.1.1.1, hwants.1.1.2, hwants.1.2⟩
  · exact absurd (Prod.mk.inj run).1 Bool.false_ne_true

/-! ### What a call is put together from -/

/-- The action may follow a target as the one with the verb: with random values, taken over from the
target where they match, and with its location. -/
def FollowsUp (m : ResourceModel) (key : String) (target : Action) (v : Verb) (x : Action) : Prop :=
  ∃ a source, m.actionOf key v = .ok a ∧
    x = { (a.randomize.run source).1.follow target with locationId := target.locationId }

theorem followsUp_of_gives {source source' : Source} {target : Action} {verbs : List Verb}
    {actions : List Action} (h : Gives (m.followUps key target verbs) source actions source') :
    List.Forall₂ (m.FollowsUp key target) verbs actions := by
  induction verbs generalizing actions source source' with
  | nil =>
    obtain ⟨rfl, -⟩ := gives_pure.1 h
    exact .nil
  | cons v rest ih =>
    obtain ⟨x, s₁, hx, h⟩ := gives_bind.1 h
    obtain ⟨more, s₂, hmore, h⟩ := gives_bind.1 h
    obtain ⟨rfl, -⟩ := gives_pure.1 h
    obtain ⟨a, s₃, ha, hx⟩ := gives_bind.1 hx
    obtain ⟨drawn, s₄, hdrawn, hx⟩ := gives_bind.1 hx
    obtain ⟨rfl, -⟩ := gives_pure.1 hx
    obtain rfl : (a.randomize.run s₃).1 = drawn := congrArg Prod.fst (gives_liftState_iff.1 hdrawn)
    exact .cons ⟨a, s₃, (gives_liftExcept_iff.1 ha).1, rfl⟩ (ih hmore)

theorem FollowsUp.outline_eq {target x : Action} {v : Verb} (h : m.FollowsUp key target v x) :
    ∃ a, m.actionOf key v = .ok a ∧
      x.outline = { a.outline with locationId := target.locationId } := by
  obtain ⟨a, source, ha, rfl⟩ := h
  have followed : ((a.randomize.run source).1.follow target).outline = a.outline :=
    (Action.outline_of_blank Action.blank_follow).trans Action.outline_randomize
  exact ⟨a, ha, congrArg (fun x : Action => { x with locationId := target.locationId }) followed⟩

/-- How the creation of the target of a template ends. -/
def plannedStatus (m : ResourceModel) (options : SamplingOptions) (verbs : List Verb)
    (entry : Action) : CallStatus :=
  if options.create && verbs.head? = some .post then (creationPlan m.sites options entry 1).2
  else .notExisting

/-- The parts are what `build` finds, plans and draws, and the call consists of them. -/
structure Assembles (m : ResourceModel) (key name : String) (options : SamplingOptions)
    (p : CallParts) (call : Call) : Prop where
  template : m.template key name = .ok p.template
  verbs : p.template.verbs? = some p.verbs
  entry : m.targetOf key p.verbs = .ok p.entry
  drawn : ∃ source, (p.entry.randomize.run source).1 = p.drawn
  posts : ∃ source,
    ((drawCreators p.drawn (m.plannedCreators options p.verbs p.entry)).run source).1 = p.posts
  rest : List.Forall₂ (m.FollowsUp key p.target) ((p.verbs.dropWhile (· = .post)).drop 1) p.rest
  last : p.last = [] ∨
    (p.template.independent = false ∧ p.template.lists .patch = true ∧
      p.created.length + p.rest.length < options.budget) ∧
    List.Forall₂ (m.FollowsUp key p.target) [.patch] p.last
  call_eq : call = .unseeded p.template (.ofAction key p.target) (p.created ++ p.rest ++ p.last)
    (m.plannedStatus options p.verbs p.entry)

/-- **Every call is put together like this.** What holds of built calls is read off the parts. -/
theorem exists_parts {source source' : Source} {call : Call}
    (h : Gives (m.build key name options) source call source') :
    ∃ p, m.Assembles key name options p call := by
  unfold build at h
  obtain ⟨t, s₁, ht, h⟩ := gives_bind.1 h
  cases hverbs : t.verbs? with
  | none =>
    rw [hverbs] at h
    obtain ⟨_, _, hthrow, -⟩ := gives_bind.1 h
    exact absurd hthrow not_gives_throw
  | some verbs =>
    rw [hverbs] at h
    obtain ⟨_, _, hpure, h⟩ := gives_bind.1 h
    obtain ⟨rfl, -⟩ := gives_pure.1 hpure
    obtain ⟨entry, s₃, hentry, h⟩ := gives_bind.1 h
    obtain ⟨drawn, s₄, hdrawn, h⟩ := gives_bind.1 h
    obtain rfl : (entry.randomize.run s₃).1 = drawn :=
      congrArg Prod.fst (gives_liftState_iff.1 hdrawn)
    -- what is planned for the target is planned for the declared action
    have planned : (if options.create && verbs.head? = some .post then
          creationPlan m.sites options (entry.randomize.run s₃).1 1 else ([], .notExisting)) =
        (m.plannedCreators options verbs entry, m.plannedStatus options verbs entry) := by
      unfold plannedCreators plannedStatus
      rw [creationPlan_congr verb_randomize path_randomize]
      split <;> rfl
    rw [planned] at h
    obtain ⟨posts, s₅, hposts, h⟩ := gives_bind.1 h
    obtain ⟨rest, s₆, hrest, h⟩ := gives_bind.1 h
    obtain ⟨wanted, s₇, hwanted, h⟩ := gives_bind.1 h
    have hposts := congrArg Prod.fst (gives_liftState_iff.1 hposts)
    have hrest := followsUp_of_gives hrest
    cases wanted with
    | false =>
      obtain ⟨_, _, hlast, h⟩ := gives_bind.1 h
      obtain ⟨rfl, -⟩ := gives_pure.1 hlast
      obtain ⟨rfl, -⟩ := gives_pure.1 h
      exact ⟨⟨t, verbs, entry, _, posts, rest, []⟩, (gives_liftExcept_iff.1 ht).1, hverbs,
        (gives_liftExcept_iff.1 hentry).1, ⟨s₃, rfl⟩, ⟨s₄, hposts⟩, hrest, .inl rfl, rfl⟩
    | true =>
      obtain ⟨last, _, hlast, h⟩ := gives_bind.1 h
      obtain ⟨rfl, -⟩ := gives_pure.1 h
      exact ⟨⟨t, verbs, entry, _, posts, rest, last⟩, (gives_liftExcept_iff.1 ht).1, hverbs,
        (gives_liftExcept_iff.1 hentry).1, ⟨s₃, rfl⟩, ⟨s₄, hposts⟩, hrest,
        .inr ⟨of_gives_wantsExtraPatch hwanted rfl, followsUp_of_gives hlast⟩, rfl⟩

variable {p : CallParts} {call : Call}

theorem Assembles.blank_drawn (h : m.Assembles key name options p call) :
    p.drawn.blank = p.entry.blank := by
  obtain ⟨s, hdrawn⟩ := h.drawn
  rw [← hdrawn, Action.blank_randomize]

theorem Assembles.outline_posts (h : m.Assembles key name options p call) :
    p.posts.map Action.outline =
      (m.plannedCreators options p.verbs p.entry).map Action.outline := by
  obtain ⟨s, hposts⟩ := h.posts
  rw [← hposts, outline_drawCreators]

theorem Assembles.outline_created (h : m.Assembles key name options p call) :
    p.created.map Action.outline = linkCreation p.entry.outline
      ((m.plannedCreators options p.verbs p.entry).map Action.outline) := by
  unfold CallParts.created
  rw [outline_linkCreation, h.outline_posts, Action.outline_of_blank h.blank_drawn]

theorem Assembles.outline_target (h : m.Assembles key name options p call) :
    p.target.outline = (p.created.map Action.outline).getLast?.getD p.entry.outline := by
  unfold CallParts.target
  rw [List.getLast?_map]
  cases p.created.getLast? with
  | none => exact Action.outline_of_blank h.blank_drawn
  | some last => rfl

theorem Assembles.rest_eq (h : m.Assembles key name options p call)
    (hnothing : (p.verbs.dropWhile (· = .post)).drop 1 = []) : p.rest = [] :=
  List.forall₂_nil_left_iff.1 (hnothing ▸ h.rest)

/-- **The outline of a call** is that of its creation, with a further `PATCH` at most. -/
theorem of_gives_build {source source' : Source} {call : Call}
    (h : Gives (m.build key name options) source call source')
    (hnothing : ∀ t verbs, m.template key name = .ok t → t.verbs? = some verbs →
      (verbs.dropWhile (· = .post)).drop 1 = []) :
    ∃ t verbs entry extra, m.template key name = .ok t ∧ t.verbs? = some verbs ∧
      m.targetOf key verbs = .ok entry ∧
      call.outline = linkCreation entry.outline
        ((m.plannedCreators options verbs entry).map Action.outline) ++ extra ∧
      (extra = [] ∨ ∃ a, extra = [a] ∧ m.IsExtraPatch key options t (linkCreation entry.outline
        ((m.plannedCreators options verbs entry).map Action.outline)) entry a) := by
  obtain ⟨p, hp⟩ := exists_parts h
  have hrest := hp.rest_eq (hnothing _ _ hp.template hp.verbs)
  have hcreated := hp.outline_created
  have houtline : call.outline = linkCreation p.entry.outline
      ((m.plannedCreators options p.verbs p.entry).map Action.outline) ++
        p.last.map Action.outline := by
    rw [hp.call_eq, ← hcreated, ← List.map_append]
    show (p.created ++ p.rest ++ p.last).map Action.outline = _
    rw [hrest, List.append_nil]
  refine ⟨p.template, p.verbs, p.entry, _, hp.template, hp.verbs, hp.entry, houtline, ?_⟩
  rcases hp.last with hlast | ⟨⟨hcreating, hpatch, hroom⟩, hlast⟩
  · exact .inl (congrArg (List.map Action.outline) hlast)
  · obtain ⟨x, nothing, hx, hnothing, heq⟩ := List.forall₂_cons_left_iff.1 hlast
    obtain rfl := List.forall₂_nil_left_iff.1 hnothing
    obtain ⟨a, ha, houtline⟩ := hx.outline_eq
    refine .inr ⟨x.outline, by rw [heq]; rfl, hcreating, hpatch, ?_, a, ha, ?_⟩
    · rw [← hcreated, List.length_map]
      simpa [hrest] using hroom
    · rw [houtline, ← hcreated, ← hp.outline_target]
      rfl

end ResourceModel

end RestScenario
