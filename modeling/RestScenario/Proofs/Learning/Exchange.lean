import RestScenario.Proofs.Learning.Attribution

/-!
# Exchanged calls

What is known of a source is its relations, and the resources that it was seen to be independent of.
Each credit changes what is known of one call alone (`Knowledge.ChangesOnly`), and an exchange of two
calls gives credit to the calls from the one place to the other: an exchanged call depends on those
that it moved past, or is independent of them, and those strictly between were preceded by other calls
before. Whatever stands behind both places has the same calls in front as before, and nothing is
learned of it (`changesOnly_afterSwap`).

Two exchanged calls on one resource escape this. They leave the resources in order, so the exchange is
taken for a call sampled anew, and all calls behind the first place are credited. They are even compared
with the actions of other calls, as though everything behind the second place had moved as well
(`exchange_on_one_resource_is_held_against_orders`). Main statement: `exchange_tells_of_calls_between`.
-/

namespace RestScenario

namespace Knowledge

variable {P Q : String → Prop} {k k' k'' : Knowledge} {source target tag : String}
  {targets : SortedSet String} {probability : Float}

/-! ## What is known of a source -/

/-- Nothing is learned of sources without `P`. -/
structure ChangesOnly (P : String → Prop) (k k' : Knowledge) : Prop where
  relations : ∀ source, ¬ P source → k'.relationsOf source = k.relationsOf source
  independences : ∀ source, ¬ P source → k'.nonDependenciesOf source = k.nonDependenciesOf source

theorem ChangesOnly.refl : ChangesOnly P k k := ⟨fun _ _ => rfl, fun _ _ => rfl⟩

theorem ChangesOnly.trans (h : ChangesOnly P k k') (h' : ChangesOnly P k' k'') :
    ChangesOnly P k k'' where
  relations := fun source hsource => (h'.relations source hsource).trans (h.relations source hsource)
  independences := fun source hsource =>
    (h'.independences source hsource).trans (h.independences source hsource)

theorem ChangesOnly.mono (h : ChangesOnly P k k') (hPQ : ∀ source, P source → Q source) :
    ChangesOnly Q k k' where
  relations := fun source hsource => h.relations source (mt (hPQ source) hsource)
  independences := fun source hsource => h.independences source (mt (hPQ source) hsource)

theorem changesOnly_foldl {α : Type} {step : Knowledge → α → Knowledge} {xs : List α}
    (h : ∀ k, ∀ x ∈ xs, ChangesOnly P k (step k x)) (k : Knowledge) :
    ChangesOnly P k (xs.foldl step k) :=
  List.foldlRecOn xs step .refl fun k' hk' x hx => hk'.trans (h k' x hx)

theorem changesOnly_updateDependency :
    ChangesOnly (· = source) k (k.updateDependency source targets tag probability) where
  relations := fun _ hother => relationsOf_updateDependency_of_ne hother
  independences := fun _ _ => by
    unfold nonDependenciesOf
    rw [nonDependencies_updateDependency]

theorem changesOnly_recordNonDependency :
    ChangesOnly (· = source) k (k.recordNonDependency source target) where
  relations := fun _ _ => relationsOf_recordNonDependency
  independences := fun other hother => by
    unfold nonDependenciesOf recordNonDependency
    rw [SortedMap.get?_upsert_of_ne _ hother]

end Knowledge

namespace Inference

open Knowledge

variable {previous current : Evaluated} {distance : Int} {verdict : Verdict} {tag : String}
  {index first last p q : Nat} {c : Call} {k k' : Knowledge}

/-! ## Credits -/

theorem changesOnly_creditOne {target : Call} (hc : current.calls[index]? = some c) :
    ChangesOnly (· = c.resource) k
      (creditOne previous current distance target verdict tag k index) := by
  unfold creditOne
  rw [hc]
  dsimp only
  split
  · exact changesOnly_updateDependency
  · exact changesOnly_recordNonDependency

theorem changesOnly_creditPair {gained lost : Call} (hc : current.calls[index]? = some c) :
    ChangesOnly (· = c.resource) k
      (creditPair previous current distance gained lost verdict tag k index) := by
  unfold creditPair
  rw [hc]
  dsimp only
  split
  · split
    · exact changesOnly_updateDependency
    · split
      · exact changesOnly_updateDependency
      · exact changesOnly_updateDependency.trans changesOnly_updateDependency
  · exact changesOnly_recordNonDependency.trans changesOnly_recordNonDependency

theorem changesOnly_creditMoved {changed : Bool} {moved : Call} {passed : List Call} :
    ChangesOnly (· = moved.resource) k (creditMoved changed moved passed k) := by
  unfold creditMoved
  split
  · exact changesOnly_foldl (fun _ _ _ => changesOnly_updateDependency) k
  · exact changesOnly_foldl (fun _ _ _ => changesOnly_recordNonDependency) k

/-- The source is the resource of one of the calls. -/
def IsResourceOf (calls : List Call) (source : String) : Prop := ∃ c ∈ calls, c.resource = source

theorem IsResourceOf.mono {calls calls' : List Call} {source : String} (hcalls : calls ⊆ calls')
    (h : IsResourceOf calls source) : IsResourceOf calls' source := by
  obtain ⟨c, hc, hsource⟩ := h
  exact ⟨c, hcalls hc, hsource⟩

theorem isResourceOf_callsBetween (hc : current.calls[index]? = some c)
    (hindex : first ≤ index ∧ index < last) :
    IsResourceOf (callsBetween current.calls first last) c.resource :=
  ⟨c, mem_callsBetween.2 ⟨index, mem_between.2 hindex, hc⟩, rfl⟩

/-- A walk over calls tells of these calls. -/
theorem changesOnly_walk {step : Knowledge → Nat → Knowledge} (hlast : last ≤ current.calls.length)
    (hstep : ∀ k index c, current.calls[index]? = some c →
      ChangesOnly (· = c.resource) k (step k index)) (k : Knowledge) :
    ChangesOnly (IsResourceOf (callsBetween current.calls first last)) k
      ((between first last).foldl step k) := by
  refine changesOnly_foldl (fun k index hindex => ?_) k
  obtain ⟨hfirst, hlt⟩ := mem_between.1 hindex
  have hc := List.getElem?_eq_getElem (Nat.lt_of_lt_of_le hlt hlast)
  refine (hstep k index _ hc).mono ?_
  rintro source rfl
  exact isResourceOf_callsBetween hc ⟨hfirst, hlt⟩

/-! ## By kind of edit -/

/-- A call that is sampled anew tells of the calls behind it. -/
theorem changesOnly_afterModify :
    ChangesOnly
      (IsResourceOf (current.calls.drop (firstMismatch previous.calls current.calls + 1))) k
      (afterModify previous current verdict k) := by
  unfold afterModify
  split
  · exact .refl
  · rename_i place hplace
    rw [firstMismatch_of_head? hplace, ← callsBetween_length]
    split
    · exact changesOnly_walk (Nat.le_refl _) (fun _ _ _ hc => changesOnly_creditOne hc) k
    · exact .refl

/-- **An exchange tells of the calls from the one place to the other.** -/
theorem changesOnly_afterSwap (hplaces : mismatches previous.calls current.calls = [p, q])
    (h : afterSwap previous current verdict k = .ok k') :
    ChangesOnly (IsResourceOf (callsBetween current.calls p (q + 1))) k k' := by
  obtain ⟨hpq, -, hq⟩ := lt_of_mismatches_eq_pair hplaces
  have hfront := List.getElem?_eq_getElem (Nat.lt_trans hpq hq)
  have hback := List.getElem?_eq_getElem hq
  unfold afterSwap at h
  rw [hplaces] at h
  dsimp only at h
  rw [hfront, hback] at h
  obtain rfl := Except.ok.inj h
  refine .trans (.trans (changesOnly_creditMoved.mono ?_) (changesOnly_creditMoved.mono ?_))
    ((changesOnly_walk (Nat.le_of_lt hq) (fun _ _ _ hc => changesOnly_creditPair hc) _).mono ?_)
  · rintro source rfl
    exact isResourceOf_callsBetween hfront (by omega)
  · rintro source rfl
    exact isResourceOf_callsBetween hback (by omega)
  · exact fun source => IsResourceOf.mono (callsBetween_subset (Nat.le_succ p) (Nat.le_succ q))

/-! ## Exchanges -/

/-- The calls at two places are on one resource, and are not the same call. -/
def OnOneResource (calls : List Call) (p q : Nat) : Prop :=
  ∃ a b, calls[p]? = some a ∧ calls[q]? = some b ∧ a.resource = b.resource ∧ sameCall a b = false

theorem mismatches_exchanged_same {front middle back : List Call} {a b : Call}
    (h : sameCall a b = true) :
    mismatches (front ++ a :: (middle ++ b :: back)) (front ++ b :: (middle ++ a :: back)) = [] := by
  rw [sameCall_eq_decide, decide_eq_true_iff] at h
  have hsame : (front ++ b :: (middle ++ a :: back)).map identity =
      (front ++ a :: (middle ++ b :: back)).map identity := by simp [h]
  rw [mismatches_congr hsame, mismatches_eq_mismatchesFrom, mismatchesFrom_self]

/-- Where the lists of calls differ after an exchange: at both places when the calls are on different
resources, nowhere when they are the same call, and first at the first place in every other case. -/
theorem Edited.differs {before after : List Call} {a b : Call}
    (h : Edited .swap [p, q] before after) (ha : before[p]? = some a) (hb : before[q]? = some b) :
    (a.resource ≠ b.resource → mismatches before after = [p, q]) ∧
      (sameCall a b = true → mismatches before after = []) ∧
      (sameCall a b = false → firstMismatch before after = p) := by
  cases h with
  | @swap front middle back a' b' =>
    obtain rfl : a' = a := by simpa using ha
    obtain rfl : b' = b := by simpa [Nat.add_assoc, Nat.add_comm 1] using hb
    exact ⟨mismatches_exchanged, mismatches_exchanged_same,
      fun hsame => firstMismatch_append (by simpa using hsame)⟩

end Inference

open Inference in
/-- **An exchange of two calls tells of the calls from the one to the other.** Whatever the scores are
and whatever was known: an exchange is learned from, and nothing is learned of resources without a call
at one of the places from the first exchanged call to the second, unless the two are different calls on
one resource. Such two are taken for a call sampled anew, and nothing is learned of resources without a
call behind the first place. -/
theorem exchange_tells_of_calls_between (k : Knowledge) (previous current : Evaluated)
    (verdict : Verdict) {p q : Nat} (h : Edited .swap [p, q] previous.calls current.calls) :
    ∃ kind k', k.learnFrom previous current verdict = .ok (kind, k') ∧
      (¬ OnOneResource previous.calls p q →
        k.ChangesOnly (IsResourceOf (callsBetween current.calls p (q + 1))) k') ∧
      (OnOneResource previous.calls p q → kind = .modify ∧
        k.ChangesOnly (IsResourceOf (current.calls.drop (p + 1))) k') := by
  obtain ⟨kind, hkind, shows⟩ := h.recognized
  obtain ⟨k', hlearned⟩ : ∃ k', k.learnFrom previous current verdict = .ok (kind, k') :=
    exists_learnFrom shows
  refine ⟨kind, k', hlearned, ?_⟩
  obtain ⟨-, hedit⟩ := learnFrom_eq_ok_iff.1 hlearned
  cases hkind with
  | itself hne => exact absurd rfl hne
  | @exchange _ _ a b _ ha hb hresource =>
    refine ⟨fun _ => changesOnly_afterSwap ((h.differs ha hb).1 hresource) hedit, ?_⟩
    rintro ⟨a', b', ha', hb', hsame, -⟩
    obtain rfl := Option.some.inj (ha.symm.trans ha')
    obtain rfl := Option.some.inj (hb.symm.trans hb')
    exact absurd hsame hresource
  | @alike _ _ a b _ ha hb hresource =>
    obtain ⟨-, hnowhere, hfirst⟩ := h.differs ha hb
    obtain rfl := Except.ok.inj hedit
    refine ⟨fun hone => ?_, fun hone => ⟨rfl, ?_⟩⟩
    · have hsame : sameCall a b = true := by
        by_contra hdiffer
        exact hone ⟨a, b, ha, hb, hresource, Bool.eq_false_iff.2 hdiffer⟩
      unfold afterModify
      rw [hnowhere hsame]
      exact .refl
    · obtain ⟨a', b', ha', hb', -, hdiffer⟩ := hone
      obtain rfl := Option.some.inj (ha.symm.trans ha')
      obtain rfl := Option.some.inj (hb.symm.trans hb')
      rw [← hfirst hdiffer]
      exact changesOnly_afterModify

namespace Sample

/-- A call that posts to a resource before it gets it. -/
def creating (name : String) : Call :=
  let post : Action := ⟨.post, ⟨[.literal name]⟩, [], false, none, none⟩
  let get : Action := ⟨.get, ⟨[.literal name]⟩, [], false, none, none⟩
  .unseeded (.unvisited "POST-GET" true 1) (.ofAction ("/" ++ name) get) [post, get] .notExisting

/-- Users are got, a user is created and got, and orders reach a target in full. -/
def usersGotFirst : Evaluated :=
  ⟨[getting "users" 1, creating "users", getting "orders" 1], Fitness.empty.record 7 1.0 3⟩

/-- The two calls on users are exchanged, and orders reach the target as before. -/
def userCreatedFirst : Evaluated :=
  ⟨[creating "users", getting "users" 1, getting "orders" 1], Fitness.empty.record 7 1.0 3⟩

/-- Orders stand behind users and items, and reach a target with half its value. -/
def ordersBehindUsers : Evaluated :=
  ⟨[getting "users" 1, getting "items" 2, getting "orders" 1], Fitness.empty.record 7 0.5 3⟩

/-- Users and items are exchanged, and orders reach the target in full. -/
def ordersBehindItems : Evaluated :=
  ⟨[getting "items" 2, getting "users" 1, getting "orders" 1], Fitness.empty.record 7 1.0 3⟩

end Sample

open Sample Inference in
/-- Orders stand behind two exchanged calls on users, with the same calls in front and the same value
reached; still they are held to depend on users. -/
theorem exchange_on_one_resource_is_held_against_orders :
    Edited .swap [0, 1] usersGotFirst.calls userCreatedFirst.calls ∧
      ∃ learned, (Knowledge.empty 0.6 true).learnFrom usersGotFirst userCreatedFirst .better =
          .ok (.modify, learned) ∧
        learned.isDependent "/orders" "/users" = true ∧
        ¬ IsResourceOf (callsBetween userCreatedFirst.calls 0 2) "/orders" := by
  refine ⟨@Edited.swap [] [] _ _ _, _, learnFrom_eq_ok_iff.2 ⟨by decide, rfl⟩, ?_, ?_⟩
  · decide +kernel
  · rintro ⟨c, hc, hresource⟩
    revert c
    decide

open Sample Inference in
theorem exchange_of_users_and_items_tells_nothing_of_orders :
    Edited .swap [0, 1] ordersBehindUsers.calls ordersBehindItems.calls ∧
      ∃ kind learned, (Knowledge.empty 0.6 true).learnFrom ordersBehindUsers ordersBehindItems
          .better = .ok (kind, learned) ∧
        ∀ target, learned.isDependent "/orders" target = false ∧
          learned.isNonDependent "/orders" target = false := by
  have hedited : Edited .swap [0, 1] ordersBehindUsers.calls ordersBehindItems.calls :=
    @Edited.swap [] [] _ _ _
  obtain ⟨kind, learned, hlearned, hbetween, -⟩ := exchange_tells_of_calls_between
    (Knowledge.empty 0.6 true) ordersBehindUsers ordersBehindItems .better hedited
  have hdifferent : ¬ OnOneResource ordersBehindUsers.calls 0 1 := by
    rintro ⟨a, b, ha, hb, hresource, -⟩
    obtain rfl := Option.some.inj ha
    obtain rfl := Option.some.inj hb
    exact absurd hresource (by decide)
  have hchanges := hbetween hdifferent
  have hbehind : ¬ IsResourceOf (callsBetween ordersBehindItems.calls 0 2) "/orders" := by
    rintro ⟨c, hc, hresource⟩
    revert c
    decide
  refine ⟨hedited, kind, learned, hlearned, fun target => ⟨?_, ?_⟩⟩
  · unfold Knowledge.isDependent
    rw [hchanges.relations _ hbehind]
    rfl
  · unfold Knowledge.isNonDependent
    rw [hchanges.independences _ hbehind]
    rfl

end RestScenario
