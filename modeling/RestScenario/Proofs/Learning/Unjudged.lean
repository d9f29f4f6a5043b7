import RestScenario.Proofs.Learning.Attribution
import RestScenario.Proofs.Learning.InPlace

/-!
# Edits without a verdict

When the scores before and after an edit are equal, nothing is held against the edit: no relation is
made, reinforced or taken in, whatever the single targets say. What is learned is independence alone,
and exactly of the calls behind the edit from the edited ones (`Concerns`). An exchange also tells of
the exchanged calls, from those that they moved past.

Every credit without a verdict notes such pairs and leaves the rest of the knowledge as it is
(`Notes`); a walk over calls notes what its steps note (`notes_walk`). Together with failures, which
leave everything as it was (`Learning.run_learn`), this is `only_judged_edits_change_relations`.
-/

namespace RestScenario

namespace Knowledge

variable {P Q : String → String → Prop} {k k' k'' : Knowledge} {source target : String}

/-! ## Noting independence -/

/-- Pairs with `P` are noted as independent, and nothing else changes. -/
structure Notes (P : String → String → Prop) (k k' : Knowledge) : Prop where
  frame : k' = { k with nonDependencies := k'.nonDependencies }
  independent : ∀ s t, k'.isNonDependent s t = true ↔ k.isNonDependent s t = true ∨ P s t

theorem notes_none (h : ∀ s t, ¬ P s t) : Notes P k k where
  frame := rfl
  independent := fun s t => by simp [h s t]

theorem Notes.trans (h : Notes P k k') (h' : Notes Q k' k'') :
    Notes (fun s t => P s t ∨ Q s t) k k'' where
  frame := by
    rw [h'.frame, h.frame]
  independent := fun s t => by
    rw [h'.independent, h.independent, or_assoc]

theorem Notes.congr (h : Notes P k k') (hPQ : ∀ s t, P s t ↔ Q s t) : Notes Q k k' where
  frame := h.frame
  independent := fun s t => by
    rw [h.independent, hPQ]

theorem notes_foldl {α : Type} {step : Knowledge → α → Knowledge} {xs : List α}
    {P : α → String → String → Prop} (h : ∀ k, ∀ x ∈ xs, Notes (P x) k (step k x)) (k : Knowledge) :
    Notes (fun s t => ∃ x ∈ xs, P x s t) k (xs.foldl step k) := by
  induction xs generalizing k with
  | nil => exact notes_none (by simp)
  | cons x rest ih =>
    have hrest := ih (fun k y hy => h k y (List.mem_cons_of_mem _ hy)) (step k x)
    exact ((h k x List.mem_cons_self).trans hrest).congr fun s t => by simp

theorem notes_recordNonDependency :
    Notes (fun s t => s = source ∧ t = target) k (k.recordNonDependency source target) where
  frame := rfl
  independent := fun _ _ => isNonDependent_recordNonDependency_iff

end Knowledge

namespace Inference

open Knowledge

variable {previous current : Evaluated} {distance : Int} {tag : String} {index first last : Nat}
  {c : Call} {edited : List Call} {k k' : Knowledge}

/-! ## Credits without a verdict -/

theorem notes_creditOne {target : Call} (hc : current.calls[index]? = some c) :
    Notes (FromTo [c] [target]) k
      (creditOne previous current distance target .equal tag k index) := by
  unfold creditOne
  rw [hc]
  exact notes_recordNonDependency.congr fun s t => by simp [FromTo, eq_comm]

theorem notes_creditPair {gained lost : Call} (hc : current.calls[index]? = some c) :
    Notes (FromTo [c] [gained, lost]) k
      (creditPair previous current distance gained lost .equal tag k index) := by
  unfold creditPair
  rw [hc]
  refine (notes_recordNonDependency.trans notes_recordNonDependency).congr fun s t => ?_
  simp [FromTo, eq_comm, and_or_left]

theorem notes_creditMoved {moved : Call} {passed : List Call} :
    Notes (FromTo [moved] passed) k (creditMoved false moved passed k) := by
  refine (notes_foldl (fun _ _ _ => notes_recordNonDependency) k).congr fun s t => ?_
  simp only [FromTo, List.mem_singleton]
  grind

/-- A walk over calls notes what each of its steps notes. -/
theorem notes_walk {step : Knowledge → Nat → Knowledge} (hlast : last ≤ current.calls.length)
    (hstep : ∀ k index c, current.calls[index]? = some c →
      Notes (FromTo [c] edited) k (step k index)) (k : Knowledge) :
    Notes (FromTo (callsBetween current.calls first last) edited) k
      ((between first last).foldl step k) := by
  have hat : ∀ k, ∀ i ∈ between first last, Notes
      (fun s t => ∃ c, current.calls[i]? = some c ∧ FromTo [c] edited s t) k (step k i) := by
    intro k i hi
    have hlt : i < current.calls.length := Nat.lt_of_lt_of_le (mem_between.1 hi).2 hlast
    have hc := List.getElem?_eq_getElem hlt
    exact (hstep k i _ hc).congr fun s t => by simp [hc]
  refine (notes_foldl hat k).congr fun s t => ?_
  constructor
  · rintro ⟨i, hi, c, hc, ⟨d, hd, rfl⟩, htarget⟩
    obtain rfl := List.mem_singleton.1 hd
    exact ⟨⟨d, mem_callsBetween.2 ⟨i, hi, hc⟩, rfl⟩, htarget⟩
  · rintro ⟨⟨c, hc, rfl⟩, htarget⟩
    obtain ⟨i, hi, hcall⟩ := mem_callsBetween.1 hc
    exact ⟨i, hi, c, hcall, ⟨c, List.mem_singleton_self c, rfl⟩, htarget⟩

/-! ## By kind of edit -/

/-- The pairs that an edit concerns, in terms of where the two lists of calls differ first: the
resource of a call behind the edit, and that of an edited call. A call that was sampled anew may be
the same as before; then no call stands behind the place. Of two exchanged calls each concerns those
that it moved past, and those strictly between concern both. -/
def Concerns (kind : Edit) (previous current : List Call) (s t : String) : Prop :=
  let place := firstMismatch previous current
  match kind with
  | .add => FromTo (current.drop (place + 1)) current[place]?.toList s t
  | .delete => FromTo (current.drop place) previous[place]?.toList s t
  | .modify => FromTo (current.drop (place + 1)) current[place]?.toList s t
  | .replace =>
    FromTo (current.drop (place + 1)) (current[place]?.toList ++ previous[place]?.toList) s t
  | .swap => ∃ other front back, mismatches previous current = [place, other] ∧
      current[place]? = some front ∧ current[other]? = some back ∧
      (FromTo [front] (callsBetween current (place + 1) (other + 1)) s t ∨
        FromTo [back] (callsBetween current place other) s t ∨
        FromTo (callsBetween current (place + 1) other) [front, back] s t)

theorem notes_afterAdd : Notes (Concerns .add previous.calls current.calls) k
    (afterAdd previous current .equal k) := by
  unfold afterAdd Concerns
  dsimp only
  cases hadded : current.calls[firstMismatch previous.calls current.calls]? with
  | none => exact notes_none fun s t => by simp [FromTo]
  | some added =>
    rw [← callsBetween_length]
    exact notes_walk (Nat.le_refl _) (fun _ _ _ hc => notes_creditOne hc) k

theorem notes_afterDelete : Notes (Concerns .delete previous.calls current.calls) k
    (afterDelete previous current .equal k) := by
  unfold afterDelete Concerns
  dsimp only
  cases hdeleted : previous.calls[firstMismatch previous.calls current.calls]? with
  | none => exact notes_none fun s t => by simp [FromTo]
  | some deleted =>
    rw [← callsBetween_length]
    exact notes_walk (Nat.le_refl _) (fun _ _ _ hc => notes_creditOne hc) k

theorem notes_afterModify (hlength : current.calls.length = previous.calls.length) :
    Notes (Concerns .modify previous.calls current.calls) k
      (afterModify previous current .equal k) := by
  unfold afterModify Concerns
  cases hfirst : (mismatches previous.calls current.calls).head? with
  | none =>
    have hplace : firstMismatch previous.calls current.calls = current.calls.length := by
      unfold firstMismatch
      rw [hfirst, Option.getD_none, hlength, Nat.min_self]
    dsimp only
    rw [hplace, List.drop_of_length_le (Nat.le_succ _)]
    exact notes_none fun s t => by simp [FromTo]
  | some place =>
    obtain ⟨hprevious, hcurrent⟩ := lt_length_of_mem_mismatches (List.mem_of_mem_head? hfirst)
    dsimp only
    rw [firstMismatch_of_head? hfirst, List.getElem?_eq_getElem hcurrent,
      List.getElem?_eq_getElem hprevious, ← callsBetween_length]
    exact notes_walk (Nat.le_refl _) (fun _ _ _ hc => notes_creditOne hc) k

theorem notes_afterReplace (h : afterReplace previous current .equal k = .ok k') :
    Notes (Concerns .replace previous.calls current.calls) k k' := by
  unfold afterReplace at h
  split at h
  · rename_i place hplaces
    have hfirst : (mismatches previous.calls current.calls).head? = some place := by rw [hplaces]; rfl
    obtain ⟨hprevious, hcurrent⟩ := lt_length_of_mem_mismatches (List.mem_of_mem_head? hfirst)
    rw [List.getElem?_eq_getElem hcurrent, List.getElem?_eq_getElem hprevious] at h
    obtain rfl := Except.ok.inj h
    unfold Concerns
    dsimp only
    rw [firstMismatch_of_head? hfirst, List.getElem?_eq_getElem hcurrent,
      List.getElem?_eq_getElem hprevious, ← callsBetween_length]
    exact notes_walk (Nat.le_refl _) (fun _ _ _ hc => notes_creditPair hc) k
  · cases h

/-- The credits for two exchanged calls, one after the other. -/
theorem notes_exchanged {p q : Nat} {front back : Call} {passed preceding : List Call}
    (hq : q ≤ current.calls.length) :
    let k₁ := creditMoved false front passed k
    let k₂ := creditMoved false back preceding k₁
    Notes (fun s t => FromTo [front] passed s t ∨ FromTo [back] preceding s t ∨
        FromTo (callsBetween current.calls (p + 1) q) [front, back] s t) k
      ((between (p + 1) q).foldl
        (creditPair previous current distance front back .equal tag) k₂) := by
  intro k₁ k₂
  have moved : Notes (fun s t => FromTo [front] passed s t ∨ FromTo [back] preceding s t) k k₂ :=
    notes_creditMoved.trans notes_creditMoved
  refine (moved.trans (notes_walk hq (fun _ _ _ hc => notes_creditPair hc) k₂)).congr ?_
  exact fun s t => or_assoc

theorem notes_afterSwap (h : afterSwap previous current .equal k = .ok k') :
    Notes (Concerns .swap previous.calls current.calls) k k' := by
  unfold afterSwap at h
  split at h
  · rename_i p q hplaces
    have hfirst : (mismatches previous.calls current.calls).head? = some p := by rw [hplaces]; rfl
    obtain ⟨-, hp⟩ := lt_length_of_mem_mismatches (List.mem_of_mem_head? hfirst)
    obtain ⟨-, hq⟩ : q < previous.calls.length ∧ q < current.calls.length :=
      lt_length_of_mem_mismatches (by rw [hplaces]; simp)
    have hfront := List.getElem?_eq_getElem hp
    have hback := List.getElem?_eq_getElem hq
    rw [hfront, hback] at h
    obtain rfl := Except.ok.inj h
    refine (notes_exchanged (Nat.le_of_lt hq)).congr fun s t => ?_
    unfold Concerns
    dsimp only
    rw [firstMismatch_of_head? hfirst, hplaces]
    constructor
    · exact fun h => ⟨q, _, _, rfl, hfront, hback, h⟩
    · rintro ⟨other, front, back, hother, hfront', hback', h⟩
      obtain rfl : q = other := by simpa using hother
      obtain rfl := Option.some.inj (hfront.symm.trans hfront')
      obtain rfl := Option.some.inj (hback.symm.trans hback')
      exact h
  · cases h

theorem notes_learnEdit {kind : Edit} (hkind : classify previous.calls current.calls = .ok kind)
    (h : learnEdit kind previous current .equal k = .ok k') :
    Notes (Concerns kind previous.calls current.calls) k k' := by
  cases kind with
  | add =>
    obtain rfl := Except.ok.inj h
    exact notes_afterAdd
  | delete =>
    obtain rfl := Except.ok.inj h
    exact notes_afterDelete
  | modify =>
    obtain rfl := Except.ok.inj h
    unfold classify at hkind
    dsimp only at hkind
    exact notes_afterModify (by grind)
  | replace => exact notes_afterReplace h
  | swap => exact notes_afterSwap h

end Inference

/-- **Only edits with a verdict change relations.** Whatever the scores are and whatever was known: an
edit that cannot be learned from leaves everything as it was, also when it is learned in place. One that
is learned from without a verdict, between equal scores, leaves relations, tables and everything else as
they were; what was seen to be independent stays so, and exactly the pairs that the edit concerns
join. -/
theorem only_judged_edits_change_relations (k : Knowledge) (previous current : Evaluated)
    (verdict : Verdict) :
    (∀ e, k.learnFrom previous current verdict = .error e →
      (Learning.learn previous current verdict).run k = (.error e, k)) ∧
    ∀ kind learned, k.learnFrom previous current verdict = .ok (kind, learned) →
      (Learning.learn previous current verdict).run k = (.ok kind, learned) ∧
      (verdict = .equal →
        learned = { k with nonDependencies := learned.nonDependencies } ∧
        ∀ s t, learned.isNonDependent s t = true ↔
          k.isNonDependent s t = true ∨ Inference.Concerns kind previous.calls current.calls s t) := by
  refine ⟨fun e he => ?_, fun kind learned hlearned => ⟨?_, ?_⟩⟩
  · rw [Learning.run_learn, he]
    rfl
  · rw [Learning.run_learn, hlearned]
    rfl
  · rintro rfl
    obtain ⟨hkind, hedit⟩ := Inference.learnFrom_eq_ok_iff.1 hlearned
    obtain ⟨hframe, hindependent⟩ := Inference.notes_learnEdit hkind hedit
    exact ⟨hframe, hindependent⟩

namespace Sample

/-- Carts stand where orders stood, behind items. -/
def cartsInPlaceOfOrders : Evaluated :=
  ⟨[getting "items" 1, getting "carts" 1], Fitness.empty.record 7 1.0 1⟩

/-- Orders are known to depend on users. -/
def ordersOnUsers : Knowledge :=
  (Knowledge.empty 0.6 true).updateDependency "/orders" (.singleton "/users") Edit.add.name 1.0

end Sample

open Sample in
/-- Two calls that are replaced at once teach nothing. Of items in the place of users, between equal
scores, it is learned that orders are independent of both, and items of neither; the relation of orders
to users stays. -/
theorem orders_independent_of_users_and_items :
    (Learning.learn ordersAfterUsers cartsInPlaceOfOrders .better).run ordersOnUsers =
        (.error (.ambiguousEdit .replace 2), ordersOnUsers) ∧
      ∃ learned, ordersOnUsers.learnFrom ordersAfterUsers ordersAfterItems .equal =
          .ok (.replace, learned) ∧
        learned.relationsOf "/orders" =
          [.simple "/orders" (.singleton "/users") 1.0 Edit.add.name] ∧
        learned.isNonDependent "/orders" "/users" = true ∧
        learned.isNonDependent "/orders" "/items" = true ∧
        learned.isNonDependent "/items" "/users" = false := by
  obtain ⟨hfails, -⟩ := only_judged_edits_change_relations ordersOnUsers
    ordersAfterUsers cartsInPlaceOfOrders .better
  obtain ⟨-, hlearns⟩ := only_judged_edits_change_relations ordersOnUsers
    ordersAfterUsers ordersAfterItems .equal
  obtain ⟨learned, hlearned⟩ : ∃ learned, ordersOnUsers.learnFrom ordersAfterUsers
      ordersAfterItems .equal = .ok (.replace, learned) :=
    Inference.exists_learnFrom ⟨by decide, fun _ => by decide, nofun⟩
  obtain ⟨-, hnotes⟩ := hlearns _ _ hlearned
  obtain ⟨hframe, hindependent⟩ := hnotes rfl
  have hpairs : ∀ s t, learned.isNonDependent s t = true ↔
      Inference.FromTo [getting "orders" 1] [getting "items" 1, getting "users" 2] s t :=
    fun s t => (hindependent s t).trans (or_iff_right Bool.false_ne_true)
  refine ⟨hfails _ (by rfl), learned, hlearned, ?_, ?_, ?_, ?_⟩
  · rw [hframe]
    rfl
  · exact (hpairs _ _).2 ⟨by decide, by decide⟩
  · exact (hpairs _ _).2 ⟨by decide, by decide⟩
  · rw [Bool.eq_false_iff, Ne, hpairs]
    exact fun hpair => absurd hpair.1 (by decide)

end RestScenario
