import RestScenario.Proofs.Lists
import RestScenario.Proofs.Resource.Permuted
import RestScenario.Proofs.Resource.Records

/-!
# Which declaration a record follows

Actions of one path may declare a parameter of one key in different ways: one requires it, another does
not; one creates the resource itself, for another it was created before. The record says what the first
declaration says (`ParamRecord.get?_ofActions`), and the catalogue may list the declaring actions in any
order, so any of them may come first (`Catalogue.exists_order_headed`). What a record says in some order is
thus what some declaration says, and nothing else (`Catalogue.said_in_some_order_iff`). It is the same in
every order exactly where the declarations agree.

The keys and the verbs do not depend on the order, because every declaration adds its verb, whichever
comes first.

Main statement: `binding_requirements_follow_declarations`.
-/

namespace RestScenario

open ParamRecord (declarations providedByChain)

/-- The declarations of a key say the same of it. -/
def Resource.DeclaredAlike {β : Type} (r : Resource) (k : String) (f : Action × Param → β) : Prop :=
  ∀ d ∈ declarations r.actions k, ∀ d' ∈ declarations r.actions k, f d = f d'

/-! ## Resources of a catalogue -/

namespace Catalogue

variable {c c' : Catalogue} {key k : String} {r r' : Resource}

/-- The resource of a key, if the catalogue is accepted and has one. -/
def resource? (c : Catalogue) (key : String) : Option Resource :=
  (ResourceModel.ofCatalogue c).toOption.bind (·.get? key)

/-- The record that a resource of the catalogue files under a key. -/
def record? (c : Catalogue) (key k : String) : Option ParamRecord :=
  (c.resource? key).bind (·.params.get? k)

theorem resource?_eq_some_iff : c.resource? key = some r ↔ c.validate = .ok () ∧
    ∃ s, (Sites.ofCatalogue c).get? key = some s ∧ Resource.ofSite (Sites.ofCatalogue c) s = r := by
  unfold resource? ResourceModel.ofCatalogue ResourceModel.get?
  cases c.validate with
  | error e => simp [bind, Except.bind, Except.toOption]
  | ok u => simp [bind, Except.bind, pure, Except.pure, Except.toOption, SortedMap.get?_map]

theorem record?_of_resource? (hr : c.resource? key = some r) :
    c.record? key k = (declarations r.actions k).head?.map fun d =>
      { ParamRecord.ofParam r.creation d.1 d.2 with
        involvedVerbs := .ofList ((declarations r.actions k).map (·.1.verb)) } := by
  obtain ⟨-, s, -, rfl⟩ := resource?_eq_some_iff.1 hr
  unfold record?
  rw [hr]
  exact ParamRecord.get?_ofActions

/-! ## Other orders -/

section Reordered

variable (hread : c.IsRead) (hr : c.resource? key = some r)
include hread hr

/-- The resource in another order has the same creation, and the same actions but for their order. -/
theorem resource?_of_perm (hperm : c'.actions.Perm c.actions) :
    ∃ r', c'.resource? key = some r' ∧ r'.creation = r.creation ∧ r'.actions.Perm r.actions := by
  obtain ⟨hc, s, hs, rfl⟩ := resource?_eq_some_iff.1 hr
  obtain ⟨s', hs', hpath, hancestors, hactions⟩ := Sites.exists_reordered hread hperm hs
  have hcreating : s'.creating = s.creating :=
    Site.creating_of_perm hpath hancestors hactions (Sites.nodup_ownVerbs hc hs)
  refine ⟨_, resource?_eq_some_iff.2 ⟨validate_of_perm hperm hc, s', hs', rfl⟩, ?_, hactions⟩
  show (Sites.ofCatalogue c').chainOf s' = (Sites.ofCatalogue c).chainOf s
  rw [← Sites.chainOf_creating, Sites.creating_ofCatalogue_of_perm hread hperm hc, hcreating,
    Sites.chainOf_creating]

/-- **Any declaration may come first.** -/
theorem exists_order_headed {d : Action × Param} (hd : d ∈ declarations r.actions k) :
    ∃ (c' : Catalogue) (r' : Resource), c'.actions.Perm c.actions ∧ c'.resource? key = some r' ∧
      r'.creation = r.creation ∧ (declarations r'.actions k).head? = some d := by
  obtain ⟨hmem, hdeclared⟩ := ParamRecord.mem_declarations.1 hd
  obtain ⟨front, back, hactions, hkey⟩ :
      ∃ front back, c.actions = front ++ d.1 :: back ∧ d.1.path.key = key := by
    obtain ⟨-, s, hs, rfl⟩ := resource?_eq_some_iff.1 hr
    obtain ⟨front, back, hactions⟩ := List.append_of_mem (Sites.mem_of_mem_actions hs hmem)
    exact ⟨front, back, hactions, ((Sites.wellFormed_ofCatalogue hread).action hs hmem).1⟩
  -- the declaring action is moved to the front of the catalogue
  have hperm : (Catalogue.mk (d.1 :: (front ++ back))).actions.Perm c.actions :=
    hactions ▸ List.perm_middle.symm
  obtain ⟨r', hr', hcreation, -⟩ := resource?_of_perm hread hr hperm
  refine ⟨_, r', hperm, hr', hcreation, ?_⟩
  obtain ⟨-, s', hs', rfl⟩ := resource?_eq_some_iff.1 hr'
  have hfirst : s'.actions = d.1 :: ((front ++ back).filter fun a => a.path.key = key) := by
    rw [Sites.actions_eq hs']
    exact List.filter_cons_of_pos (decide_eq_true hkey)
  show (declarations s'.actions k).head? = some d
  unfold ParamRecord.declarations
  rw [hfirst, List.filterMap_cons, hdeclared]
  rfl

end Reordered

/-! ## What records say -/

section Said

variable {β : Type} {f : Action × Param → β} {g : ParamRecord → β}
  (hg : ∀ d verbs, g { ParamRecord.ofParam r.creation d.1 d.2 with involvedVerbs := verbs } = f d)
include hg

/-- In any order a record says what the first declaration says. -/
theorem said_first (hr' : c'.resource? key = some r') (hcreation : r'.creation = r.creation) :
    (c'.record? key k).map g = (declarations r'.actions k).head?.map f := by
  rw [record?_of_resource? hr', hcreation, Option.map_map]
  exact Option.map_congr fun d _ => hg d _

variable (hread : c.IsRead) (hr : c.resource? key = some r)
include hread hr

/-- **What a record says in some order is what some declaration says.** -/
theorem said_in_some_order_iff {x : β} :
    (∃ c' : Catalogue, c'.actions.Perm c.actions ∧ (c'.record? key k).map g = some x) ↔
      ∃ d ∈ declarations r.actions k, f d = x := by
  constructor
  · rintro ⟨c', hperm, hx⟩
    obtain ⟨r', hr', hcreation, hactions⟩ := resource?_of_perm hread hr hperm
    rw [said_first hg hr' hcreation, Option.map_eq_some_iff] at hx
    obtain ⟨d, hd, rfl⟩ := hx
    exact ⟨d, (ParamRecord.declarations_perm hactions).subset (List.mem_of_mem_head? hd), rfl⟩
  · rintro ⟨d, hd, rfl⟩
    obtain ⟨c', r', hperm, hr', hcreation, hhead⟩ := exists_order_headed hread hr hd
    exact ⟨c', hperm, by rw [said_first hg hr' hcreation, hhead]; rfl⟩

/-- A record says the same in every order exactly where the declarations agree. -/
theorem said_in_every_order_iff :
    (∀ c' : Catalogue, c'.actions.Perm c.actions →
      (c'.record? key k).map g = (c.record? key k).map g) ↔ r.DeclaredAlike k f := by
  constructor
  · intro hsame d hd d' hd'
    obtain ⟨c₁, hperm₁, hx₁⟩ := (said_in_some_order_iff hg hread hr).2 ⟨d, hd, rfl⟩
    obtain ⟨c₂, hperm₂, hx₂⟩ := (said_in_some_order_iff hg hread hr).2 ⟨d', hd', rfl⟩
    exact Option.some.inj (hx₁.symm.trans ((hsame c₁ hperm₁).trans
      ((hsame c₂ hperm₂).symm.trans hx₂)))
  · intro hagree c' hperm
    obtain ⟨r', hr', hcreation, hactions⟩ := resource?_of_perm hread hr hperm
    rw [said_first hg hr' hcreation, said_first hg hr rfl]
    exact head?_map_of_perm (ParamRecord.declarations_perm hactions) hagree

end Said

/-- Every declaration adds its verb, whichever comes first. -/
theorem involvedVerbs_of_perm (hr : c.resource? key = some r) (hr' : c'.resource? key = some r')
    (hactions : r'.actions.Perm r.actions) :
    r'.params.map (fun _ x => x.involvedVerbs) = r.params.map fun _ x => x.involvedVerbs := by
  refine SortedMap.ext_get? fun k => ?_
  have hdeclared : (declarations r'.actions k).Perm (declarations r.actions k) :=
    ParamRecord.declarations_perm hactions
  have verbs : ∀ {c : Catalogue} {r : Resource}, c.resource? key = some r →
      (r.params.get? k).map (·.involvedVerbs) = (declarations r.actions k).head?.map fun _ =>
        SortedSet.ofList ((declarations r.actions k).map (·.1.verb)) := by
    intro c r hr
    have hrecord : c.record? key k = r.params.get? k := by
      unfold record?
      rw [hr]
      rfl
    rw [← hrecord, record?_of_resource? hr, Option.map_map]
    rfl
  rw [SortedMap.get?_map, SortedMap.get?_map, verbs hr, verbs hr']
  have hsame : SortedSet.ofList ((declarations r'.actions k).map (·.1.verb)) =
      .ofList ((declarations r.actions k).map (·.1.verb)) :=
    SortedSet.ext_mem fun v => by
      rw [SortedSet.mem_ofList, SortedSet.mem_ofList, (hdeclared.map _).mem_iff]
  rw [hsame]
  exact head?_map_of_perm hdeclared fun _ _ _ _ => rfl

end Catalogue

/-- **What the records of a resource require follows the declaration that comes first.** Take a resource
of an accepted catalogue whose paths were read. In any other order of the catalogue it has the same
parameter keys, with the same verbs. Whether the value of a key must exist already, and whether a creating
action provides it, is in each order what one of the declarations of the key says, and what any of them
says in some order. So both are the same in every order exactly where the declarations of the key agree,
and where these agree, a value that some action requires to exist is marked so. -/
theorem binding_requirements_follow_declarations {c : Catalogue} {key : String} {r : Resource}
    (hread : c.IsRead) (hr : c.resource? key = some r) :
    (∀ c' : Catalogue, c'.actions.Perm c.actions → ∃ r', c'.resource? key = some r' ∧
      r'.params.map (fun _ x => x.involvedVerbs) = r.params.map fun _ x => x.involvedVerbs) ∧
    ∀ k,
      ((∀ c' : Catalogue, c'.actions.Perm c.actions →
        (c'.record? key k).map (·.requiredToBind) = (c.record? key k).map (·.requiredToBind)) ↔
          r.DeclaredAlike k fun d => d.2.isRequiredToBind) ∧
      ((∀ c' : Catalogue, c'.actions.Perm c.actions →
        (c'.record? key k).map (·.inCreationChain) = (c.record? key k).map (·.inCreationChain)) ↔
          r.DeclaredAlike k fun d => providedByChain d.1 d.2 r.creation) ∧
      (∀ x, (∃ c' : Catalogue, c'.actions.Perm c.actions ∧
        (c'.record? key k).map (·.requiredToBind) = some x) ↔
          ∃ d ∈ declarations r.actions k, d.2.isRequiredToBind = x) ∧
      (∀ x, (∃ c' : Catalogue, c'.actions.Perm c.actions ∧
        (c'.record? key k).map (·.inCreationChain) = some x) ↔
          ∃ d ∈ declarations r.actions k, providedByChain d.1 d.2 r.creation = x) ∧
      (r.DeclaredAlike k (fun d => d.2.isRequiredToBind) →
        (∃ d ∈ declarations r.actions k, d.2.isRequiredToBind = true) →
          (c.record? key k).map (·.requiredToBind) = some true) := by
  have hrequired := fun k => Catalogue.said_in_every_order_iff (k := k) (g := (·.requiredToBind))
    (f := fun d => d.2.isRequiredToBind) (fun _ _ => rfl) hread hr
  have hchain := fun k => Catalogue.said_in_every_order_iff (k := k) (g := (·.inCreationChain))
    (f := fun d => providedByChain d.1 d.2 r.creation) (fun _ _ => rfl) hread hr
  have hsome := fun k (x : Bool) => Catalogue.said_in_some_order_iff (k := k)
    (g := (·.requiredToBind)) (f := fun d => d.2.isRequiredToBind) (fun _ _ => rfl) hread hr (x := x)
  refine ⟨fun c' hperm => ?_, fun k => ⟨hrequired k, hchain k, hsome k, fun x => ?_, ?_⟩⟩
  · obtain ⟨r', hr', -, hactions⟩ := Catalogue.resource?_of_perm hread hr hperm
    exact ⟨r', hr', Catalogue.involvedVerbs_of_perm hr hr' hactions⟩
  · exact Catalogue.said_in_some_order_iff (fun _ _ => rfl) hread hr
  · intro halike hdeclared
    obtain ⟨c', hperm, hmarked⟩ := (hsome k true).2 hdeclared
    rw [← (hrequired k).2 halike c' hperm, hmarked]

namespace Sample

/-- An action on items that are told apart by a tag. -/
def tagged (v : Verb) (required : Bool) : Action :=
  ⟨v, ⟨[.literal "items"]⟩, [⟨"tag", .query, .text, required, none, .null⟩], false, none, none⟩

/-- Items are read by a tag, and are deleted by a tag or without. -/
def stock (tagToDelete : Bool) : Catalogue := ⟨[tagged .get true, tagged .delete tagToDelete]⟩

/-- The stock with the deletion before the reading. -/
def stockReversed (tagToDelete : Bool) : Catalogue :=
  ⟨[tagged .delete tagToDelete, tagged .get true]⟩

theorem isRead_stock (tagToDelete : Bool) : (stock tagToDelete).IsRead := by
  intro a ha
  simp only [stock, List.mem_cons, List.not_mem_nil, or_false] at ha
  rcases ha with rfl | rfl <;> exact ⟨"/items", rfl⟩

end Sample

open Sample in
/-- Where every action requires the tag, it is marked in both orders. -/
theorem tag_marked_in_both_orders :
    (stock true).IsRead ∧ (stockReversed true).actions.Perm (stock true).actions ∧
      ∃ r, (stock true).resource? "/items" = some r ∧
        ((stock true).record? "/items" "QueryParam:items_tag").map (·.requiredToBind) = some true ∧
        ((stockReversed true).record? "/items" "QueryParam:items_tag").map (·.requiredToBind) =
          some true := by
  have hperm : (stockReversed true).actions.Perm (stock true).actions := .swap ..
  have hactions : ((stock true).resource? "/items").map (·.actions) =
      some [tagged .get true, tagged .delete true] := by decide +kernel
  obtain ⟨r, hr, heq⟩ := Option.map_eq_some_iff.1 hactions
  obtain ⟨-, hrecords⟩ := binding_requirements_follow_declarations (isRead_stock true) hr
  obtain ⟨hevery, -, -, -, hmarked⟩ := hrecords "QueryParam:items_tag"
  have hdeclared : ParamRecord.declarations r.actions "QueryParam:items_tag" =
      [(tagged .get true, ⟨"tag", .query, .text, true, none, .null⟩),
        (tagged .delete true, ⟨"tag", .query, .text, true, none, .null⟩)] := by
    rw [heq]
    decide +kernel
  have halike : r.DeclaredAlike "QueryParam:items_tag" fun d => d.2.isRequiredToBind := by
    unfold Resource.DeclaredAlike
    rw [hdeclared]
    decide +kernel
  have hfirst := hmarked halike (by rw [hdeclared]; decide +kernel)
  exact ⟨isRead_stock true, hperm, r, hr, hfirst,
    (hevery.2 halike (stockReversed true) hperm).trans hfirst⟩

open Sample in
/-- Where the deletion does not require the tag, it is marked in one order alone. -/
theorem tag_marked_in_one_order :
    (stockReversed false).actions.Perm (stock false).actions ∧
      (stock false).validate = .ok () ∧ (stockReversed false).validate = .ok () ∧
      ((stock false).record? "/items" "QueryParam:items_tag").map (·.requiredToBind) = some true ∧
      ((stockReversed false).record? "/items" "QueryParam:items_tag").map (·.requiredToBind) =
        some false ∧
      ∃ a ∈ (stockReversed false).actions, ∃ p ∈ a.params, a.paramKey p = "QueryParam:items_tag" ∧
        p.isRequiredToBind = true :=
  ⟨.swap .., by decide +kernel, by decide +kernel, by decide +kernel, by decide +kernel,
    tagged .get true, by decide +kernel, _, List.mem_singleton_self _, by decide +kernel,
    by decide +kernel⟩

end RestScenario
