import RestScenario.Proofs.Learning.Reached
import RestScenario.Proofs.Learning.Shift
import RestScenario.Proofs.Learning.Store

/-!
# Credit for what changed

The inference from an edit looks up where each action of a shifted call was before the edit, from a
distance that it computes from the lengths of the edited calls. The action that it finds there is
the same action (`compareCall_eq`), for each of the five kinds of edits.

So from knowledge without relations, a shifted call that shares no action name with the edited ones
becomes dependent on one of them exactly when some action of it reached something else than before
(`shifted_call_compared_with_itself`).
-/

namespace RestScenario

namespace Inference

variable {previous current : Evaluated} {distance : Int} {edited : List String} {index start : Nat}
  {c : Call} {k : Knowledge} {verdict : Verdict} {tag key : String}

/-! ## Comparing a call with itself -/

/-- An action of a call is compared with the action as far in front as the edit moved the call. -/
theorem compareCall_eq (hc : current.calls[index]? = some c)
    (hnames : ∀ name ∈ c.actionNames, name ∉ edited)
    (hstart : (current.startOf index : Int) = start + distance) :
    compareCall previous current distance edited index =
      (List.range c.length).map fun i =>
        current.fitness.compareAt [current.startOf index + i] previous.fitness [start + i] := by
  unfold compareCall Evaluated.positionsOf
  rw [hc]
  dsimp only
  rw [List.filterMap_map, ← List.filterMap_eq_map]
  refine List.filterMap_congr fun i hi => ?_
  have hi : i < c.length := List.mem_range.1 hi
  have hlength : i < c.actionNames.length := by simpa [Call.actionNames, Call.length] using hi
  have hname : current.actionNames[current.startOf index + i]? = some c.actionNames[i] := by
    rw [actionNames_getElem? hc hi, List.getElem?_eq_getElem hlength]
  have hother : edited.contains c.actionNames[i] = false := by
    simpa using hnames _ (List.getElem_mem hlength)
  -- The distance leads back to where the call started before the edit.
  have hold : ((current.startOf index + i : Nat) : Int) - distance = (start + i : Nat) := by
    push_cast
    omega
  show compareAction previous current distance edited (current.startOf index + i) = _
  unfold compareAction
  rw [hname]
  dsimp only
  rw [hother, hold, if_neg Bool.false_ne_true, if_neg (by omega), Int.toNat_natCast]
  rfl

/-- Some action of the call at place `new` reached something else than at place `old` before. -/
def Changed (previous current : Evaluated) (old new : Nat) (c : Call) : Prop :=
  ∃ i < c.length, ¬ current.fitness.SameReached (current.startOf new + i) previous.fitness
    (previous.startOf old + i)

theorem changeOf_compareCall {old new : Nat} (hc : current.calls[new]? = some c)
    (hnames : ∀ name ∈ c.actionNames, name ∉ edited)
    (hstart : (current.startOf new : Int) = previous.startOf old + distance)
    (hprevious : previous.fitness.IsDefined) (hcurrent : current.fitness.IsDefined) :
    (changeOf (compareCall previous current distance edited new)).1 = true ↔
      Changed previous current old new c := by
  rw [compareCall_eq hc hnames hstart]
  unfold changeOf Changed
  simp only [List.any_map, List.any_eq_true, List.mem_range, Function.comp_apply,
    decide_eq_true_iff, ne_eq, Fitness.compareAt_eq_iff hcurrent hprevious]

/-! ## One credit -/

theorem isDependent_congr {k k' : Knowledge} {source target : String}
    (h : k.relationsOf source = k'.relationsOf source) :
    k.isDependent source target = k'.isDependent source target := by
  unfold Knowledge.isDependent
  rw [h]

theorem not_isDependent {source target : String} (h : k.relationsOf source = []) :
    ¬ k.isDependent source target = true := by
  rw [Knowledge.isDependent_iff, h]
  simp

theorem relationsOf_foldl {α : Type} {step : Knowledge → α → Knowledge} {xs : List α}
    (frame : ∀ k, ∀ x ∈ xs, (step k x).relationsOf key = k.relationsOf key) (k : Knowledge) :
    (xs.foldl step k).relationsOf key = k.relationsOf key := by
  induction xs generalizing k with
  | nil => rfl
  | cons x rest ih =>
    obtain ⟨hx, hrest⟩ : (∀ k, (step k x).relationsOf key = k.relationsOf key) ∧ _ :=
      ⟨fun k => frame k x List.mem_cons_self, fun k y hy => frame k y (List.mem_cons_of_mem _ hy)⟩
    exact (ih hrest (step k x)).trans (hx k)

theorem relationsOf_creditOne_of_ne {target : Call}
    (h : ∀ c, current.calls[index]? = some c → key ≠ c.resource) :
    (creditOne previous current distance target verdict tag k index).relationsOf key =
      k.relationsOf key := by
  unfold creditOne
  split
  · rfl
  · rename_i c hc
    dsimp only
    split
    · exact Knowledge.relationsOf_updateDependency_of_ne (h c hc)
    · rfl

theorem relationsOf_creditPair_of_ne {gained lost : Call}
    (h : ∀ c, current.calls[index]? = some c → key ≠ c.resource) :
    (creditPair previous current distance gained lost verdict tag k index).relationsOf key =
      k.relationsOf key := by
  unfold creditPair
  split
  · rfl
  · rename_i c hc
    dsimp only
    split
    · split
      · exact Knowledge.relationsOf_updateDependency_of_ne (h c hc)
      · split
        · exact Knowledge.relationsOf_updateDependency_of_ne (h c hc)
        · rw [Knowledge.relationsOf_updateDependency_of_ne (h c hc),
            Knowledge.relationsOf_updateDependency_of_ne (h c hc)]
    · rfl

theorem relationsOf_creditMoved_of_ne {changed : Bool} {moved : Call} {passed : List Call}
    (h : key ≠ moved.resource) :
    (creditMoved changed moved passed k).relationsOf key = k.relationsOf key := by
  unfold creditMoved
  split
  · exact relationsOf_foldl (fun k other _ => Knowledge.relationsOf_updateDependency_of_ne h) k
  · exact relationsOf_foldl (fun k other _ => Knowledge.relationsOf_recordNonDependency) k

theorem isDependent_creditOne {target : Call} (hk : k.relationsOf c.resource = [])
    (hc : current.calls[index]? = some c) (hverdict : verdict ≠ .equal) :
    (creditOne previous current distance target verdict tag k index).isDependent c.resource
        target.resource = true ↔
      (changeOf (compareCall previous current distance target.actionNames index)).1 = true := by
  unfold creditOne
  rw [hc]
  dsimp only
  cases (changeOf (compareCall previous current distance target.actionNames index)).1 with
  | true =>
    rw [if_pos (by simp [hverdict])]
    simp only [iff_true]
    exact Knowledge.isDependent_updateDependency (List.mem_singleton_self _)
  | false =>
    rw [if_neg (by simp)]
    simpa using not_isDependent (k := k.recordNonDependency c.resource target.resource) hk

theorem isDependent_creditPair {gained lost : Call} (hk : k.relationsOf c.resource = [])
    (hc : current.calls[index]? = some c) (hverdict : verdict ≠ .equal) :
    let k' := creditPair previous current distance gained lost verdict tag k index
    (k'.isDependent c.resource gained.resource = true ∨
      k'.isDependent c.resource lost.resource = true) ↔
      (changeOf (compareCall previous current distance (gained.actionNames ++ lost.actionNames)
        index)).1 = true := by
  intro k'
  have hk' : k' = creditPair previous current distance gained lost verdict tag k index := rfl
  unfold creditPair at hk'
  rw [hc] at hk'
  dsimp only at hk'
  generalize changeOf (compareCall previous current distance
    (gained.actionNames ++ lost.actionNames) index) = change at hk' ⊢
  obtain ⟨changed, balance⟩ := change
  cases changed with
  | true =>
    rw [if_pos (by simp [hverdict])] at hk'
    simp only [iff_true]
    split at hk'
    · left
      rw [hk']
      exact Knowledge.isDependent_updateDependency (List.mem_singleton_self _)
    · right
      split at hk'
      all_goals
        rw [hk']
        exact Knowledge.isDependent_updateDependency (List.mem_singleton_self _)
  | false =>
    rw [if_neg (by simp)] at hk'
    have hnone : k'.relationsOf c.resource = [] := by
      rw [hk']
      exact hk
    simp [not_isDependent hnone]

/-! ## All credits -/

theorem mem_between {i first last : Nat} : i ∈ between first last ↔ first ≤ i ∧ i < last := by
  unfold between
  rw [List.mem_map]
  constructor
  · rintro ⟨n, hn, rfl⟩
    rw [List.mem_range] at hn
    omega
  · intro h
    exact ⟨i - first, List.mem_range.2 (by omega), by omega⟩

theorem nodup_between {first last : Nat} : (between first last).Nodup :=
  List.nodup_range.map fun _ _ h => Nat.add_left_cancel h

theorem resource_ne_of_ne {calls : List Call} {i j : Nat} {c d : Call}
    (hdistinct : (calls.map Call.resource).Nodup) (hc : calls[i]? = some c)
    (hd : calls[j]? = some d) (hne : j ≠ i) : c.resource ≠ d.resource := by
  intro heq
  have hlt : i < (calls.map Call.resource).length := by
    simpa using (List.getElem?_eq_some_iff.1 hc).1
  refine hne ((List.getElem?_inj hlt hdistinct).1 ?_).symm
  rw [List.getElem?_map, List.getElem?_map, hc, hd]
  exact congrArg some heq

/-- Of all credits only the one at its own place touches the relations of a call. -/
theorem exists_relationsOf_foldl (step : Knowledge → Nat → Knowledge) {first last : Nat}
    (hdistinct : (current.calls.map Call.resource).Nodup) (hc : current.calls[index]? = some c)
    (hindex : index ∈ between first last)
    (frame : ∀ k i, (∀ d, current.calls[i]? = some d → c.resource ≠ d.resource) →
      (step k i).relationsOf c.resource = k.relationsOf c.resource) (k : Knowledge) :
    ∃ k₁ : Knowledge, k₁.relationsOf c.resource = k.relationsOf c.resource ∧
      ((between first last).foldl step k).relationsOf c.resource =
        (step k₁ index).relationsOf c.resource := by
  have other : ∀ k i, i ≠ index → (step k i).relationsOf c.resource = k.relationsOf c.resource :=
    fun k i hne => frame k i fun d hd => resource_ne_of_ne hdistinct hc hd hne
  obtain ⟨front, back, hsplit⟩ := List.append_of_mem hindex
  have hnodup : (between first last).Nodup := nodup_between
  rw [hsplit, List.nodup_middle, List.nodup_cons, List.mem_append, not_or] at hnodup
  obtain ⟨⟨hfront, hback⟩, -⟩ := hnodup
  rw [hsplit, List.foldl_append, List.foldl_cons]
  refine ⟨front.foldl step k, ?_, ?_⟩
  · exact relationsOf_foldl (fun k i hi => other k i fun heq => hfront (heq ▸ hi)) k
  · exact relationsOf_foldl (fun k i hi => other k i fun heq => hback (heq ▸ hi)) _

section Shifted

variable {old new first last : Nat} (hdistinct : (current.calls.map Call.resource).Nodup)
  (hk : k.relationsOf c.resource = []) (hc : current.calls[new]? = some c)
  (hplace : first ≤ new ∧ new < last) (hverdict : verdict ≠ .equal)
  (hstart : (current.startOf new : Int) = previous.startOf old + distance)
  (hprevious : previous.fitness.IsDefined) (hcurrent : current.fitness.IsDefined)
include hdistinct hk hc hplace hverdict hstart hprevious hcurrent

/-- Where one edited call is credited, a shifted call depends on it exactly when it changed. -/
theorem isDependent_foldl_creditOne {target : Call}
    (hnames : ∀ name ∈ c.actionNames, name ∉ target.actionNames) :
    ((between first last).foldl (creditOne previous current distance target verdict tag)
        k).isDependent c.resource target.resource = true ↔ Changed previous current old new c := by
  obtain ⟨k₁, hk₁, heq⟩ := exists_relationsOf_foldl
    (creditOne previous current distance target verdict tag) hdistinct hc (mem_between.2 hplace)
    (fun _ _ h => relationsOf_creditOne_of_ne h) k
  rw [isDependent_congr heq, isDependent_creditOne (hk₁.trans hk) hc hverdict]
  exact changeOf_compareCall hc hnames hstart hprevious hcurrent

/-- Where one of two edited calls is credited, a shifted call depends on one of them exactly when it
changed. -/
theorem isDependent_foldl_creditPair {gained lost : Call}
    (hgained : ∀ name ∈ c.actionNames, name ∉ gained.actionNames)
    (hlost : ∀ name ∈ c.actionNames, name ∉ lost.actionNames) :
    let k' := (between first last).foldl
      (creditPair previous current distance gained lost verdict tag) k
    (k'.isDependent c.resource gained.resource = true ∨
      k'.isDependent c.resource lost.resource = true) ↔ Changed previous current old new c := by
  intro k'
  obtain ⟨k₁, hk₁, heq⟩ := exists_relationsOf_foldl
    (creditPair previous current distance gained lost verdict tag) hdistinct hc
    (mem_between.2 hplace)
    (fun _ _ h => relationsOf_creditPair_of_ne h) k
  rw [isDependent_congr heq, isDependent_congr heq]
  refine (isDependent_creditPair (hk₁.trans hk) hc hverdict).trans ?_
  refine changeOf_compareCall hc (fun name hname hmem => ?_) hstart hprevious hcurrent
  rcases List.mem_append.1 hmem with hmem | hmem
  · exact hgained name hname hmem
  · exact hlost name hname hmem

end Shifted

end Inference

end RestScenario
