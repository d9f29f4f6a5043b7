import RestScenario.Proofs.Learning.Reached

/-!
# Comparing both ways round

The comparison of reached targets has three criteria: more targets, a target that the other side
misses, a higher value on the first target with different values. The first and the third one answer
the opposite when both sides are exchanged. The second one does not: of two sides with equally many
targets that are not the same ones, each holds a target that the other misses, and the left one is
asked first. It is better then, whichever it is.

So a comparison turns round with its sides exactly where they are not apart in this way
(`comparison_turns_round_unless_apart`).
-/

namespace RestScenario

namespace Fitness

/-! ## Lists of reached targets -/

variable {a b as bs : List (Nat × Float)}

theorem not_lt_of_lt {x y : Float} (h : x < y) : ¬ y < x := by
  rw [Number.lt_iff] at h ⊢
  exact fun h' => lt_asymm h.2.2 h'.2.2

/-- Values on the same targets in the same order differ first on the same target. -/
theorem compareValues_swap (hkeys : as.map (·.1) = bs.map (·.1))
    (ha : ∀ e ∈ as, a.lookup e.1 = some e.2) (hb : ∀ e ∈ bs, b.lookup e.1 = some e.2) :
    compareValues bs a = (compareValues as b).swap := by
  induction as generalizing bs with
  | nil =>
    obtain rfl : bs = [] := by simpa using hkeys.symm
    rfl
  | cons e rest ih =>
    obtain ⟨target, x⟩ := e
    cases bs with
    | nil => contradiction
    | cons e' rest' =>
      obtain ⟨target', y⟩ := e'
      obtain ⟨rfl, hrest⟩ : target = target' ∧ rest.map (·.1) = rest'.map (·.1) := by
        simpa using hkeys
      obtain ⟨hx, ha⟩ := List.forall_mem_cons.1 ha
      obtain ⟨hy, hb⟩ := List.forall_mem_cons.1 hb
      dsimp only at hx hy
      rw [compareValues, compareValues, hx, hy, Option.getD_some, Option.getD_some]
      by_cases hlt : x < y
      · rw [if_pos hlt, if_neg (not_lt_of_lt hlt), if_pos hlt]
        rfl
      · by_cases hgt : y < x
        · rw [if_neg hlt, if_pos hgt, if_pos hgt]
          rfl
        · rw [if_neg hlt, if_neg hgt, if_neg hgt, if_neg hlt, ih hrest ha hb]

/-- Equally many targets are reached on both sides, but not the same ones. -/
def Apart (a b : List (Nat × Float)) : Prop :=
  a.length = b.length ∧ ¬ a.map (·.1) ⊆ b.map (·.1)

/-- As many targets among the same ones are the same ones. -/
theorem keys_perm (ha : (a.map (·.1)).Nodup) (hlength : a.length = b.length)
    (hsub : a.map (·.1) ⊆ b.map (·.1)) : (a.map (·.1)).Perm (b.map (·.1)) :=
  (List.subperm_of_subset ha hsub).perm_of_length_le (by simp [hlength])

theorem Apart.symm (hb : (b.map (·.1)).Nodup) (h : Apart a b) : Apart b a :=
  ⟨h.1.symm, fun hsub => h.2 (keys_perm hb h.1.symm hsub).symm.subset⟩

/-- **Of two sides that are apart the left one is better.** -/
theorem compareTargets_of_apart (h : Apart a b) : compareTargets a b = .gt := by
  have hmore : reachesMore a b = true := by
    rw [← Bool.not_eq_false]
    exact fun hfalse => h.2 (reachesMore_eq_false_iff.1 hfalse)
  unfold compareTargets
  rw [Nat.compare_eq_eq.2 h.1]
  simp [hmore]

/-- **Two sides that are not apart compare the other way round when they are exchanged.** -/
theorem compareTargets_swap (ha : (a.map (·.1)).Pairwise (· < ·)) (hb : (b.map (·.1)).Pairwise (· < ·))
    (h : ¬ Apart a b) : compareTargets b a = (compareTargets a b).swap := by
  have hswap : compare b.length a.length = (compare a.length b.length).swap :=
    Std.OrientedCmp.eq_swap
  unfold compareTargets
  rw [hswap]
  cases hlength : compare a.length b.length with
  | lt => rfl
  | gt => rfl
  | eq =>
    have hnodupA : (a.map (·.1)).Nodup := ha.imp Nat.ne_of_lt
    have hnodupB : (b.map (·.1)).Nodup := hb.imp Nat.ne_of_lt
    have hsub : a.map (·.1) ⊆ b.map (·.1) :=
      Decidable.not_not.1 fun hnot => h ⟨Nat.compare_eq_eq.1 hlength, hnot⟩
    have hperm := keys_perm hnodupA (Nat.compare_eq_eq.1 hlength) hsub
    have hkeys : a.map (·.1) = b.map (·.1) :=
      hperm.eq_of_pairwise (fun _ _ _ _ hxy hyx => absurd hxy (Nat.lt_asymm hyx)) ha hb
    have hvalues := compareValues_swap hkeys (fun e he => (mem_iff_lookup hnodupA).1 he)
      fun e he => (mem_iff_lookup hnodupB).1 he
    simp [reachesMore_eq_false_iff.2 hsub, reachesMore_eq_false_iff.2 hperm.symm.subset, hvalues]

/-! ## Actions -/

variable {f g : Fitness} {is js : List Nat}

theorem increasing_targetsAt : ((f.targetsAt is).map (·.1)).Pairwise (· < ·) := by
  rw [keys_targetsAt]
  have hincreasing := f.targets.increasing.filter fun e => is.contains e.2.action
  exact List.pairwise_map.2 (hincreasing.imp Nat.compare_eq_lt.1)

/-- The actions at some positions of one scenario reached as many targets as those at some positions
of another, but not the same ones. -/
def ReachApart (f : Fitness) (is : List Nat) (g : Fitness) (js : List Nat) : Prop :=
  Apart (f.targetsAt is) (g.targetsAt js)

theorem compareAt_of_reachApart (h : f.ReachApart is g js) :
    f.compareAt is g js = .gt ∧ g.compareAt js f is = .gt :=
  ⟨compareTargets_of_apart h, compareTargets_of_apart (h.symm nodup_targetsAt)⟩

theorem compareAt_swap (h : ¬ f.ReachApart is g js) :
    g.compareAt js f is = (f.compareAt is g js).swap :=
  compareTargets_swap increasing_targetsAt increasing_targetsAt h

/-- One comparison finds the left side better where the other one finds it worse, unless the sides are
apart. -/
theorem compareAt_gt_iff_iff :
    (f.compareAt is g js = .gt ↔ g.compareAt js f is = .lt) ↔ ¬ f.ReachApart is g js := by
  constructor
  · intro hiff hapart
    obtain ⟨hleft, hright⟩ := compareAt_of_reachApart hapart
    rw [hiff.1 hleft] at hright
    contradiction
  · intro h
    rw [compareAt_swap h, Ordering.swap_eq_lt]

end Fitness

open Fitness in
/-- **Comparisons turn round unless the sides are apart.** Whatever actions of two scenarios are
compared, by position or by name: one side is better exactly where it is worse in the exchanged
comparison, unless both reached equally many targets but not the same ones. Then either side is better
when it stands on the left. -/
theorem comparison_turns_round_unless_apart (f g : Fitness) :
    (∀ is js,
      ((f.compareAt is g js = .gt ↔ g.compareAt js f is = .lt) ↔ ¬ f.ReachApart is g js) ∧
      (f.ReachApart is g js → f.compareAt is g js = .gt ∧ g.compareAt js f is = .gt)) ∧
    ∀ name names others,
      ((f.compareNamed name names g others = .gt ↔ g.compareNamed name others f names = .lt) ↔
        ¬ f.ReachApart (positionsOf name names) g (positionsOf name others)) ∧
      (f.ReachApart (positionsOf name names) g (positionsOf name others) →
        f.compareNamed name names g others = .gt ∧ g.compareNamed name others f names = .gt) :=
  ⟨fun _ _ => ⟨compareAt_gt_iff_iff, compareAt_of_reachApart⟩,
    fun _ _ _ => ⟨compareAt_gt_iff_iff, compareAt_of_reachApart⟩⟩

open Fitness in
/-- One target each, and not the same one: both are better than the other. -/
theorem each_better_than_the_other :
    (empty.record 7 0.1 1).compareAt [1] (empty.record 8 0.9 1) [1] = .gt ∧
      (empty.record 8 0.9 1).compareAt [1] (empty.record 7 0.1 1) [1] = .gt := by
  decide +kernel

end RestScenario
