import RestScenario.Proofs.Engine.Performed
import RestScenario.Proofs.Learning.Edited
import RestScenario.Proofs.Lists
import RestScenario.Proofs.Ordered.Set

/-!
# Applied edits are recognized

What a mutator does to a scenario is what is learned from it afterwards: the two meet in the
description of edits by the calls before and after (`Inference.Edited`). Whatever a mutator does is
such an edit (`Mutator.Performed.edited`). The repair that follows may change path values, but not
those of calls that were in order before, so the edit still shows (`applied_edit_is_recognized`).
-/

namespace RestScenario

open Inference

/-! ## Changes of scenarios -/

namespace Scenario

variable {s s' : Scenario} {position i j : Nat} {c old : Call}

theorem edited_of_addCall (h : s.addCall position c = .ok s') :
    Edited .add [position] s.calls s'.calls := by
  unfold addCall at h
  split at h
  · cases h
  · rename_i hle
    obtain rfl := Except.ok.inj h
    obtain ⟨front, back, hcalls, rfl⟩ : ∃ front back, s.calls = front ++ back ∧
        front.length = position :=
      ⟨s.calls.take position, s.calls.drop position, (List.take_append_drop _ _).symm,
        List.length_take_of_le (Nat.le_of_not_lt hle)⟩
    dsimp only
    rw [hcalls, insertIdx_append]
    exact .add

theorem edited_of_removeCall (h : s.removeCall position = .ok s') :
    Edited .delete [position] s.calls s'.calls := by
  obtain ⟨deleted, hdeleted, h⟩ := bind_eq_ok.1 h
  obtain rfl := Except.ok.inj h
  obtain ⟨front, back, hcalls, rfl⟩ := split_of_getElem? (getElem?_of_call hdeleted)
  dsimp only
  rw [hcalls, List.eraseIdx_append_of_length_le (Nat.le_refl _), Nat.sub_self,
    List.eraseIdx_cons_zero]
  exact .delete

theorem calls_of_replaceCall (hold : s.call position = .ok old)
    (h : s.replaceCall position c = .ok s') :
    ∃ front back, s.calls = front ++ old :: back ∧ s'.calls = front ++ c :: back ∧
      front.length = position := by
  obtain ⟨_, -, h⟩ := bind_eq_ok.1 h
  obtain rfl := Except.ok.inj h
  obtain ⟨front, back, hcalls, rfl⟩ := split_of_getElem? (getElem?_of_call hold)
  refine ⟨front, back, hcalls, ?_, rfl⟩
  simp [hcalls]

theorem edited_of_swapCalls (hij : i < j) (h : s.swapCalls i j = .ok s') :
    Edited .swap [i, j] s.calls s'.calls := by
  obtain ⟨a, ha, h⟩ := bind_eq_ok.1 h
  obtain ⟨b, hb, h⟩ := bind_eq_ok.1 h
  obtain rfl := Except.ok.inj h
  obtain ⟨front, rest, hcalls, rfl⟩ := split_of_getElem? (getElem?_of_call ha)
  obtain ⟨n, rfl⟩ := Nat.exists_eq_add_of_lt hij
  -- the second call is found behind the first
  have hrest := getElem?_of_call hb
  rw [hcalls, Nat.add_assoc, List.getElem?_append_right (Nat.le_add_right _ _),
    Nat.add_sub_cancel_left, List.getElem?_cons_succ] at hrest
  obtain ⟨middle, back, rfl, rfl⟩ := split_of_getElem? hrest
  have hset : ((front ++ a :: (middle ++ b :: back)).set front.length b).set
      (front.length + middle.length + 1) a = front ++ b :: (middle ++ a :: back) := by
    simp [Nat.add_assoc]
  dsimp only
  rw [hcalls, hset, Nat.add_right_comm]
  exact .swap

/-- A resource that can be sampled and is not used is that of no call. -/
theorem fresh_of_mem_unusedKeys {e : Engine} {key : String} (h : key ∈ e.unusedKeys s) :
    ∀ c ∈ s.calls, c.resource ≠ key := by
  intro c hc heq
  have hunused := of_decide_eq_true (List.mem_filter.1 h).2
  refine hunused (SortedSet.mem_ofList.2 ?_)
  exact heq ▸ List.mem_map_of_mem hc

end Scenario

/-! ## Edits by mutators -/

variable {m : Mutator} {request : Request} {edit : Edit} {positions : List Nat} {ed ed' : Editor}

/-- Whatever a mutator does to a scenario is an edit at the positions that it gives. -/
theorem Mutator.Performed.edited (h : Performed m ed ed' edit positions) :
    Edited edit positions ed.scenario.calls ed'.scenario.calls := by
  cases h with
  | add hproposed hadd => exact Scenario.edited_of_addCall hadd
  | delete hdrawn hremove => exact Scenario.edited_of_removeCall hremove
  | swap hne hdrawn hswap => exact Scenario.edited_of_swapCalls (by omega) hswap
  | replace hplace hold hdrawn hsampled hreplace =>
    obtain ⟨front, back, hcalls, hcalls', rfl⟩ := Scenario.calls_of_replaceCall hold hreplace
    rw [hcalls, hcalls']
    -- the key is that of no call, and the sampled call is on it
    obtain ⟨source, hdrawn⟩ := Composing.gives_draw hdrawn
    have hfresh := Scenario.fresh_of_mem_unusedKeys (Random.mem_of_choose hdrawn)
    have hon := keyedResult_some.1 (Composing.keyed_sampleAnyCall.of_gives hsampled)
    refine .replace fun other hother => ?_
    rw [Call.resource_of_frame Call.frame_bindAt, hon]
    exact hfresh other (hcalls ▸ hother)
  | modify hplace hold hsampled hseeded hreplace =>
    obtain ⟨front, back, hcalls, hcalls', rfl⟩ := Scenario.calls_of_replaceCall hold hreplace
    rw [hcalls, hcalls']
    -- seeding and binding leave the call on the resource that it was sampled for
    have hon := Editing.keyed_resample.of_gives hsampled
    have hframe := Composing.frame_seedCall.of_gives hseeded
    refine .modify ?_
    rw [Call.resource_of_frame Call.frame_bindAt, Call.resource_of_frame hframe, hon]

/-! ## The repair after an edit -/

/-- A scenario that a repair leaves as it is keeps the identity of its calls in every repair. -/
theorem identity_realign_of_settled {s : Scenario} (h : s.repair = s) :
    ∀ c ∈ s.calls, identity c.realign = identity c := by
  have hmap : s.repair.calls.map identity = s.calls.map fun c => identity c.realign :=
    Scenario.map_calls_repair fun _ _ => rfl
  rw [h] at hmap
  exact fun c hc => (List.map_inj_left.1 hmap c hc).symm

/-- An applied request is an edit of a scenario that a repair leaves as it is; the repair after the edit
changes the identity of no call. -/
theorem Mutator.edited_of_applied (hsettled : ed.scenario.repair = ed.scenario)
    (hserved : Gives (m.serve request) ed (.applied edit positions) ed') :
    ∃ shown, Edited edit positions ed.scenario.calls shown ∧
      ed'.scenario.calls.map identity = shown.map identity := by
  obtain ⟨e, s, -, hperformed, hrepair⟩ := performed_of_applied hserved
  -- the repair comes on top of the edit and leaves the identity of the old calls
  obtain ⟨shown, hshown, hsame⟩ := hperformed.edited.after_map
    (fun c => Call.resource_of_frame Call.frame_realign) (identity_realign_of_settled hsettled)
  refine ⟨shown, hshown, ?_⟩
  rw [hrepair, Scenario.map_calls_repair fun _ _ => rfl, ← hsame, List.map_map]
  rfl

/-- **What a mutator did is what is seen.** Let a repair leave a scenario as it is. Whatever edit is
then applied to it, the scenario that comes of it can be learned from, whatever the scores and the
verdict are and whatever was known; and the edit is recognized, an exchange of two calls on one
resource as a call sampled anew. -/
theorem applied_edit_is_recognized {m : Mutator} {request : Request} {ed ed' : Editor} {edit : Edit}
    {positions : List Nat} (hsettled : ed.scenario.repair = ed.scenario)
    (hserved : Gives (m.serve request) ed (.applied edit positions) ed') (k : Knowledge)
    (fitness fitness' : Fitness) (verdict : Verdict) :
    ∃ kind learned, Recognized ed.scenario.calls edit positions kind ∧
      k.learnFrom ⟨ed.scenario.calls, fitness⟩ ⟨ed'.scenario.calls, fitness'⟩ verdict =
        .ok (kind, learned) := by
  obtain ⟨shown, hshown, hidentity⟩ := Mutator.edited_of_applied hsettled hserved
  obtain ⟨kind, hkind, hshows⟩ := hshown.recognized
  have hteaches : Shows kind (Evaluated.mk ed.scenario.calls fitness).calls
      (Evaluated.mk ed'.scenario.calls fitness').calls := hshows.congr hidentity
  obtain ⟨learned, hlearned⟩ := exists_learnFrom hteaches
  exact ⟨kind, learned, hkind, hlearned⟩

namespace Sample

/-- Listing all items. -/
def listItems : Action := ⟨.get, ⟨[.literal "items"]⟩, [], false, none, none⟩

/-- Users are listed, then items. -/
def usersThenItems : Editor :=
  ⟨engine, .ofCalls [listing [], .unseeded (.unvisited "GET" true 1) (.ofAction "/items" listItems)
    [listItems] .notExisting] .random⟩

end Sample

open Sample in
theorem exchange_of_users_and_items_recognized :
    usersThenItems.scenario.repair = usersThenItems.scenario ∧
    ∃ ed', Gives (exchange.1.serve exchange.2) usersThenItems (.applied .swap [0, 1]) ed' ∧
      ∃ learned, engine.knowledge.learnFrom ⟨usersThenItems.scenario.calls, .empty⟩
        ⟨ed'.scenario.calls, .empty⟩ .better = .ok (.swap, learned) := by
  have settled : usersThenItems.scenario.repair = usersThenItems.scenario := by decide +kernel
  have served : Gives (exchange.1.serve exchange.2) usersThenItems (.applied .swap [0, 1]) _ :=
    gives_of_toOption (by decide +kernel)
  refine ⟨settled, _, served, ?_⟩
  obtain ⟨kind, learned, hkind, hlearned⟩ :=
    applied_edit_is_recognized settled served engine.knowledge .empty .empty .better
  cases hkind with
  | itself h => exact absurd rfl h
  | exchange => exact ⟨learned, hlearned⟩
  | alike _ hi hj h =>
    obtain rfl := Option.some.inj hi
    obtain rfl := Option.some.inj hj
    exact absurd h (by decide)

end RestScenario
