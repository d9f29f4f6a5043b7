import RestScenario.Proofs.Learning.ShiftedCalls

/-!
# To whom changes are attributed

What an edit teaches flows in one direction: from calls behind the edit to the edited ones. Each
credit knows more of one call alone, and only in relation to edited calls (`Judges`); it gives that
call a verdict, which later credits leave standing (`Judged.mono`). A walk over the calls behind an
edit therefore gives each of them a verdict, and knows nothing more of any other pair
(`attributed_foldl`).

Main statement: `credit_flows_to_edited_calls`, for edits of every kind.
-/

namespace RestScenario

namespace Knowledge

variable {P Q : String → String → Prop} {k k' k'' : Knowledge} {source target tag : String}
  {probability : Float}

/-! ## What becomes known of pairs -/

/-- The source becomes dependent on the target, or is newly seen to be independent of it. -/
def Learns (k k' : Knowledge) (source target : String) : Prop :=
  k.isDependent source target = false ∧ k'.isDependent source target = true ∨
    k.isNonDependent source target = false ∧ k'.isNonDependent source target = true

/-- What is known of pairs stays known, and more is known of pairs with `P` alone. -/
structure Judges (P : String → String → Prop) (k k' : Knowledge) : Prop where
  dependent : ∀ s t, k.isDependent s t = true → k'.isDependent s t = true
  independent : ∀ s t, k.isNonDependent s t = true → k'.isNonDependent s t = true
  learns : ∀ s t, k.Learns k' s t → P s t

theorem Judges.refl : Judges P k k where
  dependent := fun _ _ h => h
  independent := fun _ _ h => h
  learns := by
    rintro s t (⟨hbefore, hafter⟩ | ⟨hbefore, hafter⟩)
    all_goals
      rw [hbefore] at hafter
      exact absurd hafter Bool.false_ne_true

theorem Judges.trans (h : Judges P k k') (h' : Judges P k' k'') : Judges P k k'' where
  dependent := fun s t hs => h'.dependent s t (h.dependent s t hs)
  independent := fun s t hs => h'.independent s t (h.independent s t hs)
  learns := by
    rintro s t (⟨hbefore, hafter⟩ | ⟨hbefore, hafter⟩)
    · by_cases hbetween : k'.isDependent s t = true
      · exact h.learns s t (.inl ⟨hbefore, hbetween⟩)
      · exact h'.learns s t (.inl ⟨Bool.eq_false_iff.2 hbetween, hafter⟩)
    · by_cases hbetween : k'.isNonDependent s t = true
      · exact h.learns s t (.inr ⟨hbefore, hbetween⟩)
      · exact h'.learns s t (.inr ⟨Bool.eq_false_iff.2 hbetween, hafter⟩)

theorem Judges.mono (h : Judges P k k') (hPQ : ∀ s t, P s t → Q s t) : Judges Q k k' :=
  ⟨h.dependent, h.independent, fun s t hs => hPQ s t (h.learns s t hs)⟩

theorem judges_foldl {α : Type} {step : Knowledge → α → Knowledge} {xs : List α}
    (h : ∀ k, ∀ x ∈ xs, Judges P k (step k x)) (k : Knowledge) : Judges P k (xs.foldl step k) :=
  List.foldlRecOn xs step .refl fun k' hk' x hx => hk'.trans (h k' x hx)

theorem judges_updateDependency (h : P source target) :
    Judges P k (k.updateDependency source (.singleton target) tag probability) := by
  have hnon : ∀ s t, (k.updateDependency source (.singleton target) tag probability).isNonDependent
      s t = k.isNonDependent s t := by
    intro s t
    unfold isNonDependent nonDependenciesOf
    rw [nonDependencies_updateDependency]
  refine ⟨fun s t hs => isDependent_updateDependency_iff.2 (.inl hs), fun s t hs => ?_, ?_⟩
  · rw [hnon]
    exact hs
  · rintro s t (⟨hbefore, hafter⟩ | ⟨hbefore, hafter⟩)
    · rcases isDependent_updateDependency_iff.1 hafter with hafter | ⟨rfl, htarget⟩
      · rw [hbefore] at hafter
        exact absurd hafter Bool.false_ne_true
      · rw [List.mem_singleton.1 htarget]
        exact h
    · rw [hnon, hbefore] at hafter
      exact absurd hafter Bool.false_ne_true

theorem judges_recordNonDependency (h : P source target) :
    Judges P k (k.recordNonDependency source target) := by
  refine ⟨fun s t hs => hs, fun s t hs => isNonDependent_recordNonDependency_iff.2 (.inl hs), ?_⟩
  rintro s t (⟨hbefore, hafter⟩ | ⟨hbefore, hafter⟩)
  · have hafter : k.isDependent s t = true := hafter
    rw [hbefore] at hafter
    exact absurd hafter Bool.false_ne_true
  · rcases isNonDependent_recordNonDependency_iff.1 hafter with hafter | ⟨rfl, rfl⟩
    · rw [hbefore] at hafter
      exact absurd hafter Bool.false_ne_true
    · exact h

/-! ## Verdicts on calls -/

/-- The resource of a call is known to depend on that of an edited call, or to be independent of
those of all edited calls. -/
def Judged (k : Knowledge) (edited : List Call) (c : Call) : Prop :=
  (∃ e ∈ edited, k.isDependent c.resource e.resource = true) ∨
    ∀ e ∈ edited, k.isNonDependent c.resource e.resource = true

theorem Judged.mono {edited : List Call} {c : Call} (hk : Judges P k k') (h : k.Judged edited c) :
    k'.Judged edited c := by
  rcases h with ⟨e, he, h⟩ | h
  · exact .inl ⟨e, he, hk.dependent _ _ h⟩
  · exact .inr fun e he => hk.independent _ _ (h e he)

end Knowledge

namespace Inference

open Knowledge

/-- The resource of one of the calls, and that of one of the targets. -/
def FromTo (calls targets : List Call) (s t : String) : Prop :=
  (∃ c ∈ calls, c.resource = s) ∧ ∃ e ∈ targets, e.resource = t

variable {previous current : Evaluated} {distance : Int} {verdict : Verdict} {tag : String}
  {index first last : Nat} {c : Call} {edited : List Call} {k : Knowledge}

/-! ## One credit -/

theorem judged_creditOne {target : Call} (hc : current.calls[index]? = some c) :
    let k' := creditOne previous current distance target verdict tag k index
    Judges (FromTo [c] [target]) k k' ∧ k'.Judged [target] c := by
  intro k'
  have hpair : FromTo [c] [target] c.resource target.resource := by simp [FromTo]
  have hk' : k' = creditOne previous current distance target verdict tag k index := rfl
  unfold creditOne at hk'
  rw [hc] at hk'
  dsimp only at hk'
  split at hk'
  · rw [hk']
    refine ⟨judges_updateDependency hpair, .inl ⟨target, List.mem_singleton_self _, ?_⟩⟩
    exact isDependent_updateDependency (List.mem_singleton_self _)
  · rw [hk']
    refine ⟨judges_recordNonDependency hpair, .inr fun e he => ?_⟩
    rw [List.mem_singleton.1 he]
    exact isNonDependent_recordNonDependency_iff.2 (.inr ⟨rfl, rfl⟩)

theorem judged_creditPair {gained lost : Call} (hc : current.calls[index]? = some c) :
    let k' := creditPair previous current distance gained lost verdict tag k index
    Judges (FromTo [c] [gained, lost]) k k' ∧ k'.Judged [gained, lost] c := by
  intro k'
  have hgained : FromTo [c] [gained, lost] c.resource gained.resource := by simp [FromTo]
  have hlost : FromTo [c] [gained, lost] c.resource lost.resource := by simp [FromTo]
  have hk' : k' = creditPair previous current distance gained lost verdict tag k index := rfl
  unfold creditPair at hk'
  rw [hc] at hk'
  dsimp only at hk'
  split at hk'
  · split at hk'
    · rw [hk']
      refine ⟨judges_updateDependency hgained, .inl ⟨gained, List.mem_cons_self, ?_⟩⟩
      exact isDependent_updateDependency (List.mem_singleton_self _)
    · have lost_mem : lost ∈ [gained, lost] := by simp
      split at hk'
      · rw [hk']
        refine ⟨judges_updateDependency hlost, .inl ⟨lost, lost_mem, ?_⟩⟩
        exact isDependent_updateDependency (List.mem_singleton_self _)
      · rw [hk']
        refine ⟨(judges_updateDependency hgained).trans (judges_updateDependency hlost),
          .inl ⟨lost, lost_mem, ?_⟩⟩
        exact isDependent_updateDependency (List.mem_singleton_self _)
  · rw [hk']
    refine ⟨(judges_recordNonDependency hgained).trans (judges_recordNonDependency hlost),
      .inr fun e he => ?_⟩
    rw [isNonDependent_recordNonDependency_iff, isNonDependent_recordNonDependency_iff]
    rcases List.mem_cons.1 he with rfl | he
    · exact .inl (.inr ⟨rfl, rfl⟩)
    · rw [List.mem_singleton.1 he]
      exact .inr ⟨rfl, rfl⟩

/-- What is known of a moved call is known in relation to the calls that it passed. -/
theorem judges_creditMoved {changed : Bool} {moved : Call} {passed : List Call} :
    Judges (FromTo [moved] passed) k (creditMoved changed moved passed k) := by
  have hpair : ∀ other ∈ passed, FromTo [moved] passed moved.resource other.resource :=
    fun other hother => ⟨⟨moved, List.mem_singleton_self _, rfl⟩, other, hother, rfl⟩
  unfold creditMoved
  split
  · exact judges_foldl (fun _ other hother => judges_updateDependency (hpair other hother)) k
  · exact judges_foldl (fun _ other hother => judges_recordNonDependency (hpair other hother)) k

/-! ## A walk over calls -/

/-- More is known of the given calls in relation to the edited ones alone, and each of them has a
verdict. -/
structure Attributed (calls edited : List Call) (k k' : Knowledge) : Prop where
  judges : Judges (FromTo calls edited) k k'
  judged : ∀ c ∈ calls, k'.Judged edited c

theorem mem_callsBetween {calls : List Call} :
    c ∈ callsBetween calls first last ↔ ∃ i ∈ between first last, calls[i]? = some c := by
  unfold callsBetween
  rw [List.mem_iff_getElem?]
  constructor
  · rintro ⟨n, hn⟩
    rw [List.getElem?_drop, List.getElem?_take] at hn
    split at hn
    · exact ⟨first + n, mem_between.2 ⟨by omega, by omega⟩, hn⟩
    · cases hn
  · rintro ⟨i, hi, hc⟩
    obtain ⟨hfirst, hlast⟩ := mem_between.1 hi
    refine ⟨i - first, ?_⟩
    rw [List.getElem?_drop, List.getElem?_take, if_pos (by omega), Nat.add_sub_cancel' hfirst]
    exact hc

theorem callsBetween_length {calls : List Call} :
    callsBetween calls first calls.length = calls.drop first := by
  unfold callsBetween
  rw [List.take_length]

/-- **A walk over calls attributes to the edited ones** what each of its steps does. -/
theorem attributed_foldl {step : Knowledge → Nat → Knowledge} (hlast : last ≤ current.calls.length)
    (hstep : ∀ k index c, current.calls[index]? = some c →
      Judges (FromTo [c] edited) k (step k index) ∧ (step k index).Judged edited c)
    (k : Knowledge) :
    Attributed (callsBetween current.calls first last) edited k
      ((between first last).foldl step k) := by
  have hjudges : ∀ k, ∀ i ∈ between first last,
      Judges (FromTo (callsBetween current.calls first last) edited) k (step k i) := by
    intro k i hi
    have hlt : i < current.calls.length := by
      have := (mem_between.1 hi).2
      omega
    have hcall := List.getElem?_eq_getElem hlt
    refine (hstep k i _ hcall).1.mono fun s t => And.imp_left ?_
    rintro ⟨c, hc, rfl⟩
    obtain rfl := List.mem_singleton.1 hc
    exact ⟨_, mem_callsBetween.2 ⟨i, hi, hcall⟩, rfl⟩
  refine ⟨judges_foldl hjudges k, fun c hc => ?_⟩
  obtain ⟨i, hi, hcall⟩ := mem_callsBetween.1 hc
  -- the verdict is given at the place of the call and stands to the end of the walk
  obtain ⟨front, back, hsplit⟩ := List.append_of_mem hi
  rw [hsplit, List.foldl_append, List.foldl_cons]
  have hback : ∀ k, ∀ i ∈ back,
      Judges (FromTo (callsBetween current.calls first last) edited) k (step k i) := by
    intro k i hi
    exact hjudges k i (by simp [hsplit, hi])
  exact (hstep _ i c hcall).2.mono (judges_foldl hback _)

theorem attributed_creditOne {target : Call} (hlast : last ≤ current.calls.length) :
    Attributed (callsBetween current.calls first last) [target] k
      ((between first last).foldl (creditOne previous current distance target verdict tag) k) :=
  attributed_foldl hlast (fun _ _ _ hc => judged_creditOne hc) k

theorem attributed_creditPair {gained lost : Call} (hlast : last ≤ current.calls.length) :
    Attributed (callsBetween current.calls first last) [gained, lost] k
      ((between first last).foldl (creditPair previous current distance gained lost verdict tag)
        k) :=
  attributed_foldl hlast (fun _ _ _ hc => judged_creditPair hc) k

/-! ## By kind of edit -/

/-- What an edit of a kind teaches, in terms of where the two lists of calls differ first. The calls
behind the edit are judged by the edited calls. Of two exchanged calls those strictly between them
are; more is known only of calls from the one to the other in relation to each other. A call that is
sampled anew may be the same as before; then there is no edit. -/
def Teaches (kind : Edit) (previous current : List Call) (k k' : Knowledge) : Prop :=
  let place := firstMismatch previous current
  match kind with
  | .add => ∃ added, current[place]? = some added ∧
      Attributed (current.drop (place + 1)) [added] k k'
  | .delete => ∃ deleted, previous[place]? = some deleted ∧
      Attributed (current.drop place) [deleted] k k'
  | .modify => mismatches previous current = [] ∧ k' = k ∨
      ∃ sampled, current[place]? = some sampled ∧
        Attributed (current.drop (place + 1)) [sampled] k k'
  | .replace => ∃ new old, current[place]? = some new ∧ previous[place]? = some old ∧
      Attributed (current.drop (place + 1)) [new, old] k k'
  | .swap => ∃ other front back, mismatches previous current = [place, other] ∧ place < other ∧
      current[place]? = some front ∧ current[other]? = some back ∧
      Judges (FromTo (callsBetween current place (other + 1))
        (callsBetween current place (other + 1))) k k' ∧
      ∀ c ∈ callsBetween current (place + 1) other, k'.Judged [front, back] c

theorem teaches_afterAdd (hlength : current.calls.length = previous.calls.length + 1) :
    Teaches .add previous.calls current.calls k (afterAdd previous current verdict k) := by
  have hplace := firstMismatch_le previous.calls current.calls
  have hlt : firstMismatch previous.calls current.calls < current.calls.length := by omega
  have hadded := List.getElem?_eq_getElem hlt
  refine ⟨_, hadded, ?_⟩
  unfold afterAdd
  dsimp only
  rw [hadded, ← callsBetween_length]
  exact attributed_creditOne (Nat.le_refl _)

theorem teaches_afterDelete (hlength : current.calls.length + 1 = previous.calls.length) :
    Teaches .delete previous.calls current.calls k (afterDelete previous current verdict k) := by
  have hplace := firstMismatch_le previous.calls current.calls
  have hlt : firstMismatch previous.calls current.calls < previous.calls.length := by omega
  have hdeleted := List.getElem?_eq_getElem hlt
  refine ⟨_, hdeleted, ?_⟩
  unfold afterDelete
  dsimp only
  rw [hdeleted, ← callsBetween_length]
  exact attributed_creditOne (Nat.le_refl _)

theorem teaches_afterModify :
    Teaches .modify previous.calls current.calls k (afterModify previous current verdict k) := by
  unfold afterModify
  cases hfirst : (mismatches previous.calls current.calls).head? with
  | none => exact .inl ⟨List.head?_eq_none_iff.1 hfirst, rfl⟩
  | some place =>
    obtain ⟨hprevious, hcurrent⟩ :=
      lt_length_of_mem_mismatches (List.mem_of_mem_head? hfirst)
    have hsampled := List.getElem?_eq_getElem hcurrent
    refine .inr ⟨current.calls[place], ?_⟩
    dsimp only
    rw [firstMismatch_of_head? hfirst, hsampled, List.getElem?_eq_getElem hprevious,
      ← callsBetween_length]
    exact ⟨rfl, attributed_creditOne (Nat.le_refl _)⟩

theorem teaches_afterReplace {k' : Knowledge}
    (h : afterReplace previous current verdict k = .ok k') :
    Teaches .replace previous.calls current.calls k k' := by
  unfold afterReplace at h
  split at h
  · rename_i place hplaces
    have hfirst : (mismatches previous.calls current.calls).head? = some place := by rw [hplaces]; rfl
    obtain ⟨hprevious, hcurrent⟩ :=
      lt_length_of_mem_mismatches (List.mem_of_mem_head? hfirst)
    have hnew := List.getElem?_eq_getElem hcurrent
    have hold := List.getElem?_eq_getElem hprevious
    rw [hnew, hold] at h
    obtain rfl := Except.ok.inj h
    refine ⟨current.calls[place], previous.calls[place], ?_⟩
    rw [firstMismatch_of_head? hfirst, ← callsBetween_length]
    exact ⟨hnew, hold, attributed_creditPair (Nat.le_refl _)⟩
  · cases h

theorem callsBetween_subset {calls : List Call} {first' last' : Nat} (hfirst : first ≤ first')
    (hlast : last' ≤ last) : callsBetween calls first' last' ⊆ callsBetween calls first last := by
  intro c hc
  obtain ⟨i, hi, hcall⟩ := mem_callsBetween.1 hc
  obtain ⟨hfirst', hlast'⟩ := mem_between.1 hi
  exact mem_callsBetween.2 ⟨i, mem_between.2 ⟨by omega, by omega⟩, hcall⟩

theorem FromTo.mono {calls calls' targets targets' : List Call} {s t : String}
    (h : FromTo calls targets s t) (hcalls : calls ⊆ calls') (htargets : targets ⊆ targets') :
    FromTo calls' targets' s t := by
  obtain ⟨⟨c, hc, hs⟩, e, he, ht⟩ := h
  exact ⟨⟨c, hcalls hc, hs⟩, e, htargets he, ht⟩

/-- The resources of calls at different places. -/
def Apart (calls : List Call) (s t : String) : Prop :=
  ∃ (i j : Nat) (c d : Call), i ≠ j ∧ calls[i]? = some c ∧ calls[j]? = some d ∧
    c.resource = s ∧ d.resource = t

theorem Apart.symm {calls : List Call} {s t : String} (h : Apart calls s t) : Apart calls t s := by
  obtain ⟨i, j, c, d, hne, hc, hd, hs, ht⟩ := h
  exact ⟨j, i, d, c, hne.symm, hd, hc, ht, hs⟩

theorem apart_of_mem_callsBetween {calls : List Call} {d : Call} {i : Nat} (hd : calls[i]? = some d)
    (hi : i ∉ between first last) (hc : c ∈ callsBetween calls first last) :
    Apart calls c.resource d.resource := by
  obtain ⟨j, hj, hc⟩ := mem_callsBetween.1 hc
  exact ⟨j, i, c, d, fun heq => hi (heq ▸ hj), hc, hd, rfl, rfl⟩

/-- The credits for two exchanged calls are about calls from the one to the other, at different
places. -/
theorem judges_exchanged {p q : Nat} {front back : Call} {changed changed' : Bool} (hpq : p < q)
    (hfront : current.calls[p]? = some front) (hback : current.calls[q]? = some back) :
    let window := callsBetween current.calls p (q + 1)
    let k₁ := creditMoved changed front (callsBetween current.calls (p + 1) (q + 1)) k
    let k₂ := creditMoved changed' back (callsBetween current.calls p q) k₁
    let k₃ := (between (p + 1) q).foldl
      (creditPair previous current distance front back verdict tag) k₂
    Judges (fun s t => FromTo window window s t ∧ Apart current.calls s t) k k₃ ∧
      ∀ c ∈ callsBetween current.calls (p + 1) q, k₃.Judged [front, back] c := by
  intro window k₁ k₂ k₃
  let Pair s t := FromTo window window s t ∧ Apart current.calls s t
  have hq : q < current.calls.length := (List.getElem?_eq_some_iff.1 hback).1
  have front_in : [front] ⊆ window := by
    intro c hc
    rw [List.mem_singleton.1 hc]
    exact mem_callsBetween.2 ⟨p, mem_between.2 ⟨by omega, by omega⟩, hfront⟩
  have back_in : [back] ⊆ window := by
    intro c hc
    rw [List.mem_singleton.1 hc]
    exact mem_callsBetween.2 ⟨q, mem_between.2 ⟨by omega, by omega⟩, hback⟩
  -- neither exchanged call is among those that its credits name
  have front_apart : ∀ {last : Nat}, p ∉ between (p + 1) last := by simp [mem_between]
  have back_apart : ∀ {first : Nat}, q ∉ between first q := by simp [mem_between]
  have first : Judges Pair k k₁ := judges_creditMoved.mono fun s t hst => by
    refine ⟨hst.mono front_in (callsBetween_subset (Nat.le_succ p) (Nat.le_refl _)), ?_⟩
    obtain ⟨⟨c, hc, rfl⟩, e, he, rfl⟩ := hst
    obtain rfl := List.mem_singleton.1 hc
    exact (apart_of_mem_callsBetween hfront front_apart he).symm
  have second : Judges Pair k₁ k₂ := judges_creditMoved.mono fun s t hst => by
    refine ⟨hst.mono back_in (callsBetween_subset (Nat.le_refl p) (Nat.le_succ q)), ?_⟩
    obtain ⟨⟨c, hc, rfl⟩, e, he, rfl⟩ := hst
    obtain rfl := List.mem_singleton.1 hc
    exact (apart_of_mem_callsBetween hback back_apart he).symm
  have third : Attributed (callsBetween current.calls (p + 1) q) [front, back] k₂ k₃ :=
    attributed_creditPair (Nat.le_of_lt hq)
  refine ⟨(first.trans second).trans (third.judges.mono fun s t hst => ⟨?_, ?_⟩), third.judged⟩
  · refine hst.mono (callsBetween_subset (Nat.le_succ p) (Nat.le_succ q)) ?_
    exact List.append_subset.2 ⟨front_in, back_in⟩
  · obtain ⟨⟨c, hc, rfl⟩, e, he, rfl⟩ := hst
    rcases List.mem_pair.1 he with rfl | rfl
    · exact apart_of_mem_callsBetween hfront front_apart hc
    · exact apart_of_mem_callsBetween hback back_apart hc

theorem exchanged_afterSwap {k' : Knowledge} (h : afterSwap previous current verdict k = .ok k') :
    ∃ p q front back, mismatches previous.calls current.calls = [p, q] ∧ p < q ∧
      current.calls[p]? = some front ∧ current.calls[q]? = some back ∧
      Judges (fun s t => FromTo (callsBetween current.calls p (q + 1))
        (callsBetween current.calls p (q + 1)) s t ∧ Apart current.calls s t) k k' ∧
      ∀ c ∈ callsBetween current.calls (p + 1) q, k'.Judged [front, back] c := by
  unfold afterSwap at h
  split at h
  · rename_i p q hplaces
    obtain ⟨hpq, -, hq⟩ := lt_of_mismatches_eq_pair hplaces
    have hfront := List.getElem?_eq_getElem (Nat.lt_trans hpq hq)
    have hback := List.getElem?_eq_getElem hq
    rw [hfront, hback] at h
    obtain rfl := Except.ok.inj h
    exact ⟨p, q, _, _, hplaces, hpq, hfront, hback, judges_exchanged hpq hfront hback⟩
  · cases h

theorem teaches_afterSwap {k' : Knowledge} (h : afterSwap previous current verdict k = .ok k') :
    Teaches .swap previous.calls current.calls k k' := by
  obtain ⟨p, q, front, back, hplaces, hpq, hfront, hback, hjudges, hjudged⟩ := exchanged_afterSwap h
  have hfirst : (mismatches previous.calls current.calls).head? = some p := by rw [hplaces]; rfl
  refine ⟨q, front, back, ?_⟩
  rw [firstMismatch_of_head? hfirst]
  exact ⟨hplaces, hpq, hfront, hback, hjudges.mono fun _ _ => And.left, hjudged⟩

theorem teaches_learnEdit {kind : Edit} {k' : Knowledge}
    (hkind : classify previous.calls current.calls = .ok kind)
    (h : learnEdit kind previous current verdict k = .ok k') :
    Teaches kind previous.calls current.calls k k' := by
  unfold classify at hkind
  dsimp only at hkind
  cases kind with
  | add =>
    obtain rfl := Except.ok.inj h
    exact teaches_afterAdd (by grind)
  | delete =>
    obtain rfl := Except.ok.inj h
    exact teaches_afterDelete (by grind)
  | modify =>
    obtain rfl := Except.ok.inj h
    exact teaches_afterModify
  | replace => exact teaches_afterReplace h
  | swap => exact teaches_afterSwap h

end Inference

/-- **What an edit teaches is attributed to the edited calls.** Whatever the scores are and whatever
was known: when an edit is learned from, more is known afterwards only of calls behind the first
difference in relation to the edited calls, for a deletion also of the call that took the place of
the deleted one, and each of them has a verdict. For an exchange it is the calls from the one
exchanged place to the other that more is known of, in relation to each other. -/
theorem credit_flows_to_edited_calls {k k' : Knowledge} {previous current : Evaluated}
    {verdict : Verdict} {kind : Edit}
    (h : k.learnFrom previous current verdict = .ok (kind, k')) :
    Inference.Teaches kind previous.calls current.calls k k' := by
  obtain ⟨hkind, hedit⟩ := Inference.learnFrom_eq_ok_iff.1 h
  exact Inference.teaches_learnEdit hkind hedit

namespace Sample

/-- Carts stand between users and items, and reach a target with half its value. -/
def cartsAfterUsers : Evaluated :=
  ⟨[getting "users" 1, getting "carts" 1, getting "items" 2], Fitness.empty.record 7 0.5 1⟩

/-- Users and items are exchanged, and carts reach the target in full. -/
def cartsAfterItems : Evaluated :=
  ⟨[getting "items" 2, getting "carts" 1, getting "users" 1], Fitness.empty.record 7 1.0 2⟩

end Sample

open Sample in
theorem carts_judged_after_exchange :
    ∃ learned, (Knowledge.empty 0.6 true).learnFrom cartsAfterUsers cartsAfterItems .better =
        .ok (.swap, learned) ∧
      learned.Judged [getting "items" 2, getting "users" 1] (getting "carts" 1) := by
  have hkind : Inference.classify cartsAfterUsers.calls cartsAfterItems.calls = .ok .swap := by
    decide
  have hplaces : Inference.mismatches cartsAfterUsers.calls cartsAfterItems.calls = [0, 2] := by
    decide
  obtain ⟨learned, hlearned⟩ : ∃ learned, (Knowledge.empty 0.6 true).learnFrom cartsAfterUsers
      cartsAfterItems .better = .ok (.swap, learned) :=
    Inference.exists_learnFrom ⟨hkind, nofun, fun _ => congrArg List.length hplaces⟩
  refine ⟨learned, hlearned, ?_⟩
  obtain ⟨other, front, back, hother, -, hfront, hback, -, hjudged⟩ :=
    credit_flows_to_edited_calls hlearned
  obtain rfl : 2 = other := by
    rw [hplaces] at hother
    injection hother with _ hother
    injection hother
  obtain rfl := Option.some.inj hfront
  obtain rfl := Option.some.inj hback
  exact hjudged _ (List.mem_singleton_self _)

end RestScenario
