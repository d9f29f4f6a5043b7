import RestScenario.Proofs.Call.Instance
import RestScenario.Proofs.Sampling.Realized

/-!
# A sampled call addresses one instance

The actions of a call are on the path of its target or on ancestors of it, and no two templates need
the same names for their variables. Where the catalogue declares the variables of its paths
(`Action.DeclaresPath`), an action on the way to the target has the values of the target at all its
variables, level by level (`Action.OnWayTo`).

**Upwards.** Each creator is drawn with values of its own, which it shares among its names, and then
follows the action that it creates (`Action.onWayTo_followPath`). A creation is a chain of such
steps, and being on the way is transitive, so all of it is on the way to the target
(`onWayTo_drawCreators`).

**Downwards.** A further `PATCH` is on the path of the target and follows it.

So any two actions agree wherever both have a variable
(`sampled_call_addresses_one_instance`).
-/

namespace RestScenario

open RestScenario.Random

namespace Action

variable {a b t u : Action} {n : Nat} {x y : String}

/-! ## On the way to an action -/

/-- The action is on the path of another one or an ancestor of it, and has its values there. -/
structure OnWayTo (a t : Action) : Prop where
  path : a.path.isSameOrAncestorOf t.path = true
  values : ∀ (n : Nat) (x y : String), a.path.elements[n]? = some (.var x) →
    t.path.elements[n]? = some (.var y) →
    ∃ v, pathValue? a.params x = some v ∧ pathValue? t.params y = some v

theorem DeclaresPath.onWayTo_self (ha : a.DeclaresPath) : a.OnWayTo a := by
  refine ⟨a.path.isSameOrAncestorOf_refl, fun n x y hx hy => ?_⟩
  obtain rfl : x = y := by simpa [hx] using hy
  obtain ⟨v, hv⟩ := ha.exists_pathValue hx
  exact ⟨v, hv, hv⟩

theorem OnWayTo.trans (hab : a.OnWayTo b) (hbt : b.OnWayTo t) : a.OnWayTo t := by
  refine ⟨PathTemplate.isSameOrAncestorOf_trans hab.path hbt.path, fun n x y hx hy => ?_⟩
  obtain ⟨z, hz⟩ := PathTemplate.exists_variable hab.path hx
  obtain ⟨v, hv, hzv⟩ := hab.values n x z hx hz
  obtain ⟨w, hzw, hw⟩ := hbt.values n z y hz hy
  obtain rfl : v = w := Option.some.inj (hzv.symm.trans hzw)
  exact ⟨v, hv, hw⟩

/-- Paths and path values decide. -/
theorem OnWayTo.congr (h : a.OnWayTo t) (hpath : b.path = a.path)
    (hvalues : ∀ name, pathValue? b.params name = pathValue? a.params name)
    (hpath' : u.path = t.path)
    (hvalues' : ∀ name, pathValue? u.params name = pathValue? t.params name) : b.OnWayTo u := by
  refine ⟨by rw [hpath, hpath']; exact h.path, fun n x y hx hy => ?_⟩
  rw [hvalues, hvalues']
  exact h.values n x y (hpath ▸ hx) (hpath' ▸ hy)

/-- Two actions on the way to a third one agree where both have a variable. -/
theorem OnWayTo.same_value (ha : a.OnWayTo t) (hb : b.OnWayTo t)
    (hx : a.path.elements[n]? = some (.var x)) (hy : b.path.elements[n]? = some (.var y)) :
    ∃ v, pathValue? a.params x = some v ∧ pathValue? b.params y = some v := by
  obtain ⟨z, hz⟩ := PathTemplate.exists_variable ha.path hx
  obtain ⟨v, hv, hzv⟩ := ha.values n x z hx hz
  obtain ⟨w, hw, hzw⟩ := hb.values n y z hy hz
  obtain rfl : v = w := Option.some.inj (hzv.symm.trans hzw)
  exact ⟨v, hv, hw⟩

/-! ## Following -/

/-- An action that follows another one on its path is on the way to it. -/
theorem onWayTo_followPath (ha : a.DeclaresPath) (ht : t.DeclaresPath)
    (hpath : a.path.isSameOrAncestorOf t.path = true) : (a.followPath t).OnWayTo t := by
  refine ⟨hpath, fun n x y hx hy => ?_⟩
  obtain ⟨v, hv⟩ := ha.exists_pathValue hx
  obtain ⟨w, hw⟩ := ht.exists_pathValue hy
  have hagree : ∀ e ∈ (a.path.elements.zip t.path.elements).take n, e.1.agrees e.2 = true := by
    intro e he
    obtain ⟨-, hagree⟩ := PathTemplate.isSameOrAncestorOf_iff.1 hpath
    exact List.all_eq_true.1 hagree e (List.mem_of_mem_take he)
  have htaken : (a.takenFrom t).reverse.lookup x = some w := lookup_takenFrom ha.1 hagree hx hy hw
  refine ⟨w, ?_, hw⟩
  rw [pathValue?_followPath, hv, htaken]
  rfl

theorem onWayTo_follow (ha : a.DeclaresPath) (ht : t.DeclaresPath)
    (hpath : a.path.isSameOrAncestorOf t.path = true) : (a.follow t).OnWayTo t :=
  (onWayTo_followPath ha ht hpath).congr rfl (fun _ => pathValue?_follow) rfl fun _ => rfl

theorem Creates.isSameOrAncestorOf (h : a.Creates b) : a.path.isSameOrAncestorOf b.path = true := by
  rcases h.2 with heq | hancestor
  · rw [heq]
    exact b.path.isSameOrAncestorOf_refl
  · exact Bool.or_eq_true_iff.2 (.inr hancestor)

theorem DeclaresPath.randomize (ha : a.DeclaresPath) {source : Source} :
    (a.randomize.run source).1.DeclaresPath := ha.of_blank blank_randomize

theorem DeclaresPath.followPath (ha : a.DeclaresPath) : (a.followPath t).DeclaresPath :=
  ha.of_blank blank_followPath

end Action

/-! ## Creations -/

/-- **The whole creation is on the way to its target.** -/
theorem onWayTo_drawCreators {target : Action} {creators : List Action} {source : Source}
    (htarget : target.DeclaresPath) (hcreators : ∀ b ∈ creators, b.DeclaresPath)
    (hchain : (target :: creators).IsChain fun inner outer => outer.Creates inner) :
    ∀ b ∈ ((drawCreators target creators).run source).1, b.OnWayTo target := by
  induction creators generalizing target source with
  | nil =>
    intro b hb
    cases hb
  | cons creator outer ih =>
    obtain ⟨hcreator, houter⟩ := List.forall_mem_cons.1 hcreators
    obtain ⟨hcreates, hrest⟩ := List.isChain_cons_cons.1 hchain
    -- the nearest creator follows the target, and the others are on the way to that creator
    have hpost : ((creator.randomize.run source).1.followPath target).OnWayTo target :=
      Action.onWayTo_followPath hcreator.randomize htarget hcreates.isSameOrAncestorOf
    have hrest : ((creator.randomize.run source).1.followPath target :: outer).IsChain
        fun inner outer => outer.Creates inner :=
      hrest.imp_head fun hx => hx.congr rfl rfl rfl
    refine List.forall_mem_cons.2 ⟨hpost, fun b hb => ?_⟩
    exact (ih hcreator.randomize.followPath houter hrest b hb).trans hpost

namespace ResourceModel

variable {c : Catalogue} {m : ResourceModel} {key name : String} {options : SamplingOptions}
  {p : CallParts} {call : Call}

theorem Assembles.onWayTo_target (h : m.Assembles key name options p call) (hm : m.InUse c)
    (hread : c.IsRead) (hdeclares : ∀ a ∈ c.actions, a.DeclaresPath) :
    ∀ a ∈ call.actions, a.OnWayTo p.target := by
  have hentry : p.entry.DeclaresPath := hdeclares _ (hm.mem_of_targetOf h.entry)
  have hdrawn : p.drawn.DeclaresPath := hentry.of_blank h.blank_drawn
  have hposts : ∀ b ∈ p.posts, b.OnWayTo p.drawn := by
    obtain ⟨source, hposts⟩ := h.posts
    rw [← hposts]
    refine onWayTo_drawCreators hdrawn
      (fun b hb => hdeclares b (hm.mem_of_mem_plannedCreators hb)) ?_
    exact (h.isChain_planned hm hread).1.imp_head fun hx =>
      hx.congr rfl rfl (congrArg Action.path h.blank_drawn :)
  obtain ⟨posts, hcreated, htarget, hfront⟩ := p.exists_created
  have hpath : p.target.path = p.drawn.path := (congrArg Action.path htarget :)
  have hparams : p.target.params = p.drawn.params := (congrArg Action.params htarget :)
  have htargetDeclares : p.target.DeclaresPath := by
    unfold Action.DeclaresPath
    rw [hpath, hparams]
    exact hdrawn
  intro a ha
  rw [h.actions_eq hm, hcreated, List.append_assoc] at ha
  rcases List.mem_append.1 ha with hpost | hrest
  · obtain ⟨b, hb, hsame⟩ := hfront a hpost
    have hsameParams : a.params = b.params := (congrArg Action.params hsame :)
    exact (hposts b hb).congr (congrArg Action.path hsame :) (fun _ => by rw [hsameParams]) hpath
      fun _ => by rw [hparams]
  · rcases List.mem_cons.1 hrest with rfl | hlast
    · exact htargetDeclares.onWayTo_self
    · rcases h.last_eq hm with hnil | ⟨-, source, hone⟩
      · rw [hnil] at hlast
        cases hlast
      · obtain rfl := List.mem_singleton.1 (hone ▸ hlast)
        have hsame : p.target.path = p.entry.path :=
          hpath.trans (congrArg Action.path h.blank_drawn :)
        have hfollows : ((p.entry.randomize.run source).1.follow p.target).OnWayTo p.target :=
          Action.onWayTo_follow hentry.randomize htargetDeclares
            (hsame ▸ p.target.path.isSameOrAncestorOf_refl)
        exact hfollows.congr rfl (fun _ => rfl) rfl fun _ => rfl

theorem Assembles.exists_target (h : m.Assembles key name options p call) (hm : m.InUse c)
    (hread : c.IsRead) :
    ∃ target ∈ call.createdPart.getLast?, call.instanceKey = target.resolvedPath := by
  obtain ⟨posts, hcreated, -⟩ := p.exists_created
  refine ⟨p.target, by simp [h.createdPart_eq hm hread, hcreated], ?_⟩
  rw [h.call_eq]
  exact Subject.key_ofAction

end ResourceModel

/-! ## Sampled calls -/

/-- Any two actions have one value wherever both have a variable, and the instance on record is the
one that the action after the creating ones addresses. -/
structure Call.AddressesOneInstance (call : Call) : Prop where
  values : ∀ a ∈ call.actions, ∀ b ∈ call.actions, ∀ (n : Nat) (x y : String),
    a.path.elements[n]? = some (.var x) → b.path.elements[n]? = some (.var y) →
    ∃ v, pathValue? a.params x = some v ∧ pathValue? b.params y = some v
  record : ∃ target ∈ call.createdPart.getLast?, call.instanceKey = target.resolvedPath

/-- **A sampled call addresses one instance**, whatever template, request and random words it comes
from, if the catalogue declares the variables of its paths. -/
theorem sampled_call_addresses_one_instance {c : Catalogue} {s s' : Sampler} {key name : String}
    {options : SamplingOptions} {call : Call} (hread : c.IsRead)
    (hdeclares : ∀ a ∈ c.actions, a.DeclaresPath) (hs : s.InUse c)
    (h : Gives (Sampler.generate key name options) s call s') : call.AddressesOneInstance := by
  obtain ⟨-, m, source, source', hm, hbuilt⟩ := Triple.of_gives Sampler.ensures_generate h hs
  obtain ⟨p, hp⟩ := ResourceModel.exists_parts hbuilt
  have honWay := hp.onWayTo_target hm hread hdeclares
  refine ⟨fun a ha b hb n x y hx hy => ?_, hp.exists_target hm hread⟩
  exact (honWay a ha).same_value (honWay b hb) hx hy

namespace Sample

/-- Loans of members: created for a member, and read under other names. The query of the creation
bears the name of the path variable. -/
def lending : Catalogue :=
  let loans : PathTemplate := ⟨[.literal "members", .var "member", .literal "loans"]⟩
  let loan : PathTemplate := ⟨[.literal "members", .var "id", .literal "loans", .var "loan"]⟩
  let number (name : String) (place : Place) : Param := ⟨name, place, .integer, true, none, .null⟩
  ⟨[⟨.post, loans, [number "member" .query, number "member" .path], false, none, none⟩,
    ⟨.get, loan, [number "id" .path, number "loan" .path], false, none, none⟩]⟩

theorem isRead_lending : lending.IsRead := by
  intro a ha
  simp only [lending, List.mem_cons, List.not_mem_nil, or_false] at ha
  rcases ha with rfl | rfl
  · exact ⟨"/members/\x7bmember\x7d/loans", rfl⟩
  · exact ⟨"/members/\x7bid\x7d/loans/\x7bloan\x7d", rfl⟩

/-- The resource model of the loans, and random words. -/
def lendingSampler : Sampler :=
  ⟨((ResourceModel.ofCatalogue lending).toOption).getD .empty,
    ⟨fun n => UInt32.ofNat (n * 400000000 + 123456789), 0, 256⟩⟩

theorem inUse_lendingSampler : lendingSampler.InUse lending :=
  ResourceModel.inUse_of_ofCatalogue (eq_ok_of_isSome_toOption .empty (by decide +kernel))

end Sample

open Sample in
theorem loan_read_after_creation_for_its_member :
    (lending.IsRead ∧ (∀ a ∈ lending.actions, a.DeclaresPath) ∧ lendingSampler.InUse lending) ∧
      ∃ call s', Gives (Sampler.generate "/members/\x7bid\x7d/loans/\x7bloan\x7d" "POST-GET" (.ofBudget 2))
          lendingSampler call s' ∧
        call.actions.map Action.resolvedPath = ["/members/3082/loans", "/members/3082/loans/4944"] ∧
        call.AddressesOneInstance := by
  have hdeclares : ∀ a ∈ lending.actions, a.DeclaresPath := by decide +kernel
  have hpaths : ((Sampler.generate "/members/\x7bid\x7d/loans/\x7bloan\x7d" "POST-GET"
      (.ofBudget 2)).run lendingSampler).1.toOption.map (fun call =>
        call.actions.map Action.resolvedPath) =
      some ["/members/3082/loans", "/members/3082/loans/4944"] := by decide +kernel
  obtain ⟨call, hcall, hpaths⟩ := Option.map_eq_some_iff.1 hpaths
  have hgives := gives_of_toOption hcall
  exact ⟨⟨isRead_lending, hdeclares, inUse_lendingSampler⟩, call, _, hgives, hpaths,
    sampled_call_addresses_one_instance isRead_lending hdeclares inUse_lendingSampler hgives⟩

end RestScenario
