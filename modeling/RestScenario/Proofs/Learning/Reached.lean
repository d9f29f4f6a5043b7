import Mathlib.Data.List.Nodup
import RestScenario.Learning.Fitness
import RestScenario.Proofs.Number.Order
import RestScenario.Proofs.Ordered.Map

/-!
# What an action reached

The action at a position reached some targets, each with a value. As long as all values are defined,
two actions compare equal exactly when they reached the same targets with the same values
(`compareAt_eq_iff`).
-/

namespace RestScenario.Fitness

/-- The value that the action at a position reached on a target. -/
def valueAt? (f : Fitness) (position target : Nat) : Option Float :=
  ((f.targets.get? target).filter fun r => r.action = position).map Reached.value

/-- Equal values, or none on both sides. -/
def SameValue : Option Float → Option Float → Prop
  | some x, some y => (x == y) = true
  | none, none => True
  | _, _ => False

/-- The actions at two positions reached the same targets with the same values. -/
def SameReached (f : Fitness) (i : Nat) (g : Fitness) (j : Nat) : Prop :=
  ∀ target, SameValue (f.valueAt? i target) (g.valueAt? j target)

/-- All values are defined. -/
def IsDefined (f : Fitness) : Prop := ∀ e ∈ f.targets.entries, e.2.value.isNaN = false

instance (f : Fitness) : Decidable f.IsDefined :=
  inferInstanceAs (Decidable (∀ e ∈ f.targets.entries, e.2.value.isNaN = false))

/-! ## Lists of reached targets -/

theorem not_lt_and_not_lt_iff {x y : Float} (hx : x.isNaN = false) (hy : y.isNaN = false) :
    ¬ y < x ∧ ¬ x < y ↔ (x == y) = true := by
  rw [Number.lt_iff, Number.lt_iff, Number.beq_iff]
  simp only [hx, hy, true_and, not_lt]
  exact ⟨fun h => le_antisymm h.1 h.2, fun h => ⟨h.le, h.ge⟩⟩

theorem SameValue.isSome_eq {x y : Option Float} (h : SameValue x y) : x.isSome = y.isSome := by
  cases x <;> cases y <;> first | rfl | exact h.elim

theorem mem_keys_iff {a : List (Nat × Float)} {target : Nat} :
    target ∈ a.map (·.1) ↔ (a.lookup target).isSome = true := by
  rw [List.lookup_isSome_iff, List.mem_map]
  exact exists_congr fun e => and_congr_right fun _ => by rw [beq_iff_eq, eq_comm]

theorem mem_iff_lookup {a : List (Nat × Float)} (h : (a.map (·.1)).Nodup) {target : Nat}
    {x : Float} : (target, x) ∈ a ↔ a.lookup target = some x := by
  induction a with
  | nil => simp
  | cons e rest ih =>
    obtain ⟨t, y⟩ := e
    obtain ⟨hnot, hrest⟩ := List.nodup_cons.1 h
    rw [List.mem_cons, List.lookup_cons, ih hrest]
    by_cases heq : target = t
    · subst heq
      have absent : rest.lookup target ≠ some x :=
        fun hx => hnot (List.mem_map.2 ⟨(target, x), (ih hrest).2 hx, rfl⟩)
      simp [absent, eq_comm]
    · rw [beq_false_of_ne heq]
      simp [heq]

theorem compareValues_eq_iff {a b : List (Nat × Float)} :
    compareValues a b = .eq ↔
      ∀ e ∈ a, ¬ (b.lookup e.1).getD 0.0 < e.2 ∧ ¬ e.2 < (b.lookup e.1).getD 0.0 := by
  induction a with
  | nil => simp [compareValues]
  | cons e rest ih =>
    obtain ⟨target, x⟩ := e
    rw [compareValues, List.forall_mem_cons]
    dsimp only
    split
    · simp [*]
    · split
      · simp [*]
      · rw [ih]
        simp [*]

theorem reachesMore_eq_false_iff {a b : List (Nat × Float)} :
    reachesMore a b = false ↔ a.map (·.1) ⊆ b.map (·.1) := by
  unfold reachesMore
  rw [List.any_eq_false, List.subset_def]
  simp

theorem compareTargets_eq_iff {a b : List (Nat × Float)} :
    compareTargets a b = .eq ↔ a.length = b.length ∧ a.map (·.1) ⊆ b.map (·.1) ∧
      b.map (·.1) ⊆ a.map (·.1) ∧ compareValues a b = .eq := by
  rw [← reachesMore_eq_false_iff, ← reachesMore_eq_false_iff]
  unfold compareTargets
  rcases hlength : compare a.length b.length with _ | _ | _
  · simp [(Nat.compare_eq_lt.1 hlength).ne]
  · cases reachesMore a b <;> cases reachesMore b a <;> simp [Nat.compare_eq_eq.1 hlength]
  · simp [(Nat.compare_eq_gt.1 hlength).ne']

/-- Two lists of defined values on distinct targets compare equal exactly when they agree on every
target. -/
theorem compareTargets_eq_iff_lookup {a b : List (Nat × Float)} (ha : (a.map (·.1)).Nodup)
    (hb : (b.map (·.1)).Nodup) (hdefA : ∀ e ∈ a, e.2.isNaN = false)
    (hdefB : ∀ e ∈ b, e.2.isNaN = false) :
    compareTargets a b = .eq ↔ ∀ target, SameValue (a.lookup target) (b.lookup target) := by
  rw [compareTargets_eq_iff, compareValues_eq_iff]
  constructor
  · rintro ⟨-, hab, hba, hvalues⟩ target
    cases hx : a.lookup target with
    | none =>
      cases hy : b.lookup target with
      | none => trivial
      | some y =>
        have hmem := hba (mem_keys_iff.2 (Option.isSome_of_eq_some hy))
        rw [mem_keys_iff, hx] at hmem
        contradiction
    | some x =>
      have hxa := (mem_iff_lookup ha).2 hx
      obtain ⟨y, hy⟩ := Option.isSome_iff_exists.1
        (mem_keys_iff.1 (hab (mem_keys_iff.2 (Option.isSome_of_eq_some hx))))
      have near := hvalues _ hxa
      rw [hy, Option.getD_some] at near
      rw [hy]
      exact (not_lt_and_not_lt_iff (hdefA _ hxa) (hdefB _ ((mem_iff_lookup hb).2 hy))).1 near
  · intro hsame
    have keys : ∀ target, target ∈ a.map (·.1) ↔ target ∈ b.map (·.1) := by
      intro target
      rw [mem_keys_iff, mem_keys_iff, (hsame target).isSome_eq]
    refine ⟨?_, fun t => (keys t).1, fun t => (keys t).2, ?_⟩
    · -- The targets are distinct, so equally many.
      simpa using ((List.perm_ext_iff_of_nodup ha hb).2 keys).length_eq
    · rintro ⟨target, x⟩ hxa
      have same := hsame target
      rw [(mem_iff_lookup ha).1 hxa] at same
      obtain ⟨y, hy⟩ := Option.isSome_iff_exists.1 same.isSome_eq.symm
      rw [hy] at same
      rw [hy, Option.getD_some]
      exact (not_lt_and_not_lt_iff (hdefA _ hxa) (hdefB _ ((mem_iff_lookup hb).2 hy))).2 same

/-! ## Actions -/

variable {f g : Fitness} {i j target : Nat}

theorem mem_targetsAt {x : Float} :
    (target, x) ∈ f.targetsAt [i] ↔ f.valueAt? i target = some x := by
  unfold targetsAt valueAt?
  simp only [List.mem_map, List.mem_filter, Option.map_eq_some_iff, Option.filter_eq_some_iff]
  constructor
  · rintro ⟨⟨t, r⟩, ⟨hmem, hat⟩, heq⟩
    obtain ⟨rfl, rfl⟩ := Prod.mk.inj heq
    exact ⟨r, ⟨SortedMap.mem_entries_iff.1 hmem, by simpa using hat⟩, rfl⟩
  · rintro ⟨r, ⟨hget, hat⟩, rfl⟩
    exact ⟨(target, r), ⟨SortedMap.mem_entries_iff.2 hget, by simpa using hat⟩, rfl⟩

theorem keys_targetsAt {positions : List Nat} : (f.targetsAt positions).map (·.1) =
    (f.targets.entries.filter fun e => positions.contains e.2.action).map (·.1) := by
  unfold targetsAt
  rw [List.map_map]
  rfl

theorem nodup_targetsAt {positions : List Nat} : ((f.targetsAt positions).map (·.1)).Nodup := by
  rw [keys_targetsAt]
  exact f.targets.nodup_keys.sublist (List.filter_sublist.map _)

theorem lookup_targetsAt : (f.targetsAt [i]).lookup target = f.valueAt? i target := by
  refine Option.ext fun x => ?_
  rw [← mem_iff_lookup nodup_targetsAt, mem_targetsAt]

theorem IsDefined.targetsAt {positions : List Nat} (h : f.IsDefined) :
    ∀ e ∈ f.targetsAt positions, e.2.isNaN = false := by
  intro e he
  obtain ⟨e', he', rfl⟩ := List.mem_map.1 he
  exact h e' (List.mem_filter.1 he').1

/-- **Two actions compare equal exactly when they reached the same.** -/
theorem compareAt_eq_iff (hf : f.IsDefined) (hg : g.IsDefined) :
    f.compareAt [i] g [j] = .eq ↔ f.SameReached i g j := by
  unfold compareAt SameReached
  rw [compareTargets_eq_iff_lookup nodup_targetsAt nodup_targetsAt hf.targetsAt hg.targetsAt]
  simp only [lookup_targetsAt]

end RestScenario.Fitness
