import RestScenario.Proofs.Learning.Credit

/-!
# Shifted calls are compared with themselves

For each kind of edit the inference walks over the calls that the edit shifted, with the distance by
which it shifted them (`afterAdd_eq` and its like). The distance brings each call back to the place
that it had, so whether a shifted call becomes dependent on an edited one tells whether it reached
something else than before (`shifted_call_compared_with_itself`).
-/

namespace RestScenario

namespace Inference

variable {previous current : Evaluated} {k : Knowledge} {verdict : Verdict}
  {front middle back : List Call} {added deleted old new a b : Call}

/-! ## The walk of each kind -/

theorem afterAdd_eq (hprevious : previous.calls = front ++ back)
    (hcurrent : current.calls = front ++ added :: back)
    (fresh : ∀ c ∈ front ++ back, c.resource ≠ added.resource) :
    afterAdd previous current verdict k = (between (front.length + 1) current.calls.length).foldl
      (creditOne previous current added.length added verdict Edit.add.name) k := by
  have place : firstMismatch previous.calls current.calls = front.length := by
    rw [hprevious, hcurrent]
    refine firstMismatch_append fun p hp c hc => sameCall_of_resource_ne ?_
    obtain rfl : added = c := by simpa using hc
    exact fresh p (List.mem_append_right _ (List.mem_of_mem_head? hp))
  have there : current.calls[front.length]? = some added := by simp [hcurrent]
  unfold afterAdd
  simp only [place, there]

theorem afterDelete_eq (hprevious : previous.calls = front ++ deleted :: back)
    (hcurrent : current.calls = front ++ back)
    (hdistinct : (previous.calls.map Call.resource).Nodup) :
    afterDelete previous current verdict k =
      (between front.length current.calls.length).foldl
        (creditOne previous current (-(deleted.length : Int)) deleted verdict
          Edit.delete.name) k := by
  have place : firstMismatch previous.calls current.calls = front.length := by
    rw [hprevious] at hdistinct ⊢
    rw [hcurrent]
    refine firstMismatch_append fun p hp c hc => sameCall_of_resource_ne ?_
    obtain rfl : deleted = p := by simpa using hp
    rw [List.map_append, List.map_cons] at hdistinct
    have apart := (List.nodup_cons.1 (List.nodup_append.1 hdistinct).2.1).1
    intro heq
    exact apart (heq ▸ List.mem_map_of_mem (List.mem_of_mem_head? hc))
  have there : previous.calls[front.length]? = some deleted := by simp [hprevious]
  unfold afterDelete
  simp only [place, there]

theorem afterModify_eq (hprevious : previous.calls = front ++ old :: back)
    (hcurrent : current.calls = front ++ new :: back) (differs : sameCall old new = false) :
    afterModify previous current verdict k =
      (between (front.length + 1) current.calls.length).foldl
        (creditOne previous current ((new.length : Int) - old.length) new verdict
          Edit.modify.name) k := by
  have place : (mismatches previous.calls current.calls).head? = some front.length := by
    rw [hprevious, hcurrent, mismatches_replaced differs]
    rfl
  have before : previous.calls[front.length]? = some old := by simp [hprevious]
  have after : current.calls[front.length]? = some new := by simp [hcurrent]
  unfold afterModify
  simp only [place, before, after]

theorem afterReplace_eq (hprevious : previous.calls = front ++ old :: back)
    (hcurrent : current.calls = front ++ new :: back) (differs : sameCall old new = false) :
    afterReplace previous current verdict k =
      .ok ((between (front.length + 1) current.calls.length).foldl
        (creditPair previous current ((new.length : Int) - old.length) new old verdict
          Edit.replace.name) k) := by
  have place : mismatches previous.calls current.calls = [front.length] := by
    rw [hprevious, hcurrent, mismatches_replaced differs]
  have before : previous.calls[front.length]? = some old := by simp [hprevious]
  have after : current.calls[front.length]? = some new := by simp [hcurrent]
  unfold afterReplace
  simp only [place, before, after]

variable (k verdict) in
/-- The credit of the exchanged calls themselves comes first, and concerns no other call. -/
theorem afterSwap_eq (hprevious : previous.calls = front ++ a :: (middle ++ b :: back))
    (hcurrent : current.calls = front ++ b :: (middle ++ a :: back))
    (hne : a.resource ≠ b.resource) :
    ∃ k₁ : Knowledge,
      (∀ key, key ≠ a.resource → key ≠ b.resource → k₁.relationsOf key = k.relationsOf key) ∧
      afterSwap previous current verdict k =
        .ok ((between (front.length + 1) (front.length + 1 + middle.length)).foldl
          (creditPair previous current ((b.length : Int) - a.length) b a verdict
            Edit.swap.name) k₁) := by
  have places : mismatches previous.calls current.calls =
      [front.length, front.length + 1 + middle.length] := by
    rw [hprevious, hcurrent, mismatches_exchanged hne]
  have first : current.calls[front.length]? = some b := by simp [hcurrent]
  have second : current.calls[front.length + 1 + middle.length]? = some a := by
    simp [hcurrent, Nat.add_assoc, Nat.add_comm 1]
  unfold afterSwap
  simp only [places, first, second]
  refine ⟨_, fun key ha hb => ?_, rfl⟩
  rw [relationsOf_creditMoved_of_ne ha, relationsOf_creditMoved_of_ne hb]

end Inference

/-! ## All kinds -/

open Inference in
/-- **Inference compares every shifted call with itself.** Let an edit of some kind turn calls on
distinct resources into others, and let `c` be a call that it shifted from place `old` to place
`new` and that shares no action name with the edited calls. Then from knowledge without relations
the kind is recognized, and the resource of `c` becomes dependent on the resource of an edited call
exactly when some action of `c` reached other targets or values than the same action did before. -/
theorem shifted_call_compared_with_itself {k : Knowledge} {previous current : Evaluated}
    {verdict : Verdict} {kind : Edit} {edited : List Call} {old new : Nat} {c : Call}
    (hk : ∀ key, k.relationsOf key = [])
    (hdistinct : (previous.calls.map Call.resource).Nodup)
    (hshift : Shift kind edited old new previous.calls current.calls)
    (hc : current.calls[new]? = some c)
    (hnames : ∀ e ∈ edited, ∀ name ∈ c.actionNames, name ∉ e.actionNames)
    (hprevious : previous.fitness.IsDefined) (hcurrent : current.fitness.IsDefined)
    (hverdict : verdict ≠ .equal) :
    ∃ learned, k.learnFrom previous current verdict = .ok (kind, learned) ∧
      ((∃ e ∈ edited, learned.isDependent c.resource e.resource = true) ↔
        Changed previous current old new c) := by
  have hcurrentDistinct := hshift.nodup_resources hdistinct
  have recognized := hshift.classify_eq hdistinct
  have hplace := hshift.lt_length
  have hstart := hshift.startOf_eq
  suffices ∃ learned, learnEdit kind previous current verdict k = .ok learned ∧
      ((∃ e ∈ edited, learned.isDependent c.resource e.resource = true) ↔
        Changed previous current old new c) by
    obtain ⟨learned, hlearned, hiff⟩ := this
    refine ⟨learned, ?_, hiff⟩
    rw [learnFrom_eq, recognized]
    show (learnEdit kind previous current verdict k).map (kind, ·) = _
    rw [hlearned]
    rfl
  generalize hp : previous.calls = previousCalls at hshift hdistinct
  generalize hq : current.calls = currentCalls at hshift
  cases hshift with
  | @add front back added n fresh behind =>
    refine ⟨_, congrArg Except.ok (afterAdd_eq hp hq fresh), ?_⟩
    simp only [List.mem_singleton, exists_eq_left]
    exact isDependent_foldl_creditOne hcurrentDistinct (hk _) hc ⟨by omega, hplace⟩ hverdict
      hstart hprevious hcurrent (hnames added (by simp))
  | @delete front back deleted n behind =>
    refine ⟨_, congrArg Except.ok (afterDelete_eq hp hq (hp ▸ hdistinct)), ?_⟩
    simp only [List.mem_singleton, exists_eq_left]
    exact isDependent_foldl_creditOne hcurrentDistinct (hk _) hc ⟨by omega, hplace⟩ hverdict
      hstart hprevious hcurrent (hnames deleted (by simp))
  | @modify front back before after n resource differs behind =>
    refine ⟨_, congrArg Except.ok (afterModify_eq hp hq differs), ?_⟩
    simp only [List.mem_cons, List.not_mem_nil, or_false, exists_eq_or_imp, exists_eq_left,
      ← resource, or_self]
    exact isDependent_foldl_creditOne hcurrentDistinct (hk _) hc ⟨by omega, hplace⟩ hverdict
      hstart hprevious hcurrent (hnames after (by simp))
  | @replace front back before after n fresh behind =>
    have differs := sameCall_of_resource_ne (fresh before (by simp))
    refine ⟨_, afterReplace_eq hp hq differs, ?_⟩
    simp only [List.mem_cons, List.not_mem_nil, or_false, exists_eq_or_imp, exists_eq_left]
    rw [or_comm]
    exact isDependent_foldl_creditPair hcurrentDistinct (hk _) hc ⟨by omega, hplace⟩ hverdict
      hstart hprevious hcurrent (hnames after (by simp)) (hnames before (by simp))
  | @swap front middle back a b n inner =>
    obtain ⟨k₁, hk₁, hlearned⟩ := afterSwap_eq k verdict hp hq
      (resource_ne_of_nodup hdistinct)
    have first : current.calls[front.length]? = some b := by simp [hq]
    have second : current.calls[front.length + 1 + middle.length]? = some a := by
      simp [hq, Nat.add_assoc, Nat.add_comm 1]
    -- The exchanged calls are credited first, which leaves the relations of `c` empty.
    have hempty : k₁.relationsOf c.resource = [] := by
      rw [hk₁ _ (resource_ne_of_ne hcurrentDistinct hc second (by omega))
        (resource_ne_of_ne hcurrentDistinct hc first (by omega))]
      exact hk _
    refine ⟨_, hlearned, ?_⟩
    simp only [List.mem_cons, List.not_mem_nil, or_false, exists_eq_or_imp, exists_eq_left]
    rw [or_comm]
    exact isDependent_foldl_creditPair hcurrentDistinct hempty hc ⟨by omega, by omega⟩ hverdict
      hstart hprevious hcurrent (hnames b (by simp)) (hnames a (by simp))

namespace Sample

/-- A call that gets a resource several times. -/
def getting (name : String) (times : Nat) : Call :=
  let get : Action := ⟨.get, ⟨[.literal name]⟩, [], false, none, none⟩
  .unseeded (.unvisited "GET" true 1) (.ofAction ("/" ++ name) get) (List.replicate times get)
    .notExisting

/-- Orders come after users, and reach a target with half its value. -/
def ordersAfterUsers : Evaluated :=
  ⟨[getting "users" 2, getting "orders" 1], Fitness.empty.record 7 0.5 2⟩

/-- Orders come after items, and reach the target in full. -/
def ordersAfterItems : Evaluated :=
  ⟨[getting "items" 1, getting "orders" 1], Fitness.empty.record 7 1.0 1⟩

end Sample

open Sample in
theorem dependency_after_replacement :
    ∃ learned, (Knowledge.empty 0.6 true).learnFrom ordersAfterUsers ordersAfterItems .better =
        .ok (.replace, learned) ∧
      ∃ e ∈ [getting "users" 2, getting "items" 1],
        learned.isDependent "/orders" e.resource = true := by
  have hshift : Inference.Shift .replace [getting "users" 2, getting "items" 1] 1 1
      ordersAfterUsers.calls ordersAfterItems.calls :=
    @Inference.Shift.replace [] [getting "orders" 1] (getting "users" 2) (getting "items" 1) 0
      (by decide) (by decide)
  obtain ⟨learned, hlearned, hiff⟩ := shifted_call_compared_with_itself (c := getting "orders" 1)
    (k := Knowledge.empty 0.6 true) (fun _ => rfl) (by decide) hshift rfl (by decide) (by decide)
    (by decide) (show Verdict.better ≠ .equal by decide)
  refine ⟨learned, hlearned, hiff.2 ⟨0, by decide, fun same => ?_⟩⟩
  have equal : ((1.0 : Float) == 0.5) = true := same 7
  exact absurd equal (by decide)

end RestScenario
