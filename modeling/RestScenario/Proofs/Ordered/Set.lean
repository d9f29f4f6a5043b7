import RestScenario.Ordered.Set

/-!
# Members of sets

What the members of a set are, one lemma for each way to make it.
-/

namespace RestScenario.SortedSet

variable {α : Type} [Ord α] {s t : SortedSet α} {xs : List α} {x y : α}

theorem mem_filter {test : α → Bool} : x ∈ s.filter test ↔ x ∈ s ∧ test x = true :=
  List.mem_filter

theorem mem_singleton : x ∈ SortedSet.singleton y ↔ x = y := List.mem_singleton

theorem nodup_toList [Std.ReflOrd α] : s.toList.Nodup := by
  refine s.increasing.imp fun {x y} hlt heq => ?_
  rw [heq] at hlt
  simp at hlt

variable [Std.TransOrd α] [Std.LawfulEqOrd α]

theorem mem_union : x ∈ s.union t ↔ x ∈ s ∨ x ∈ t := mem_insertMany

theorem mem_ofList : x ∈ SortedSet.ofList xs ↔ x ∈ xs := by
  have empty : ¬ x ∈ (SortedSet.empty : SortedSet α) := List.not_mem_nil
  unfold ofList
  simp [empty]

/-- Sets with the same members are the same. -/
theorem ext_mem (h : ∀ x, x ∈ s ↔ x ∈ t) : s = t := by
  have perm : s.toList.Perm t.toList := (List.perm_ext_iff_of_nodup nodup_toList nodup_toList).2 h
  refine SortedSet.ext (perm.eq_of_pairwise ?_ s.increasing t.increasing)
  intro x y _ _ hxy hyx
  rw [Std.OrientedCmp.gt_of_lt hxy] at hyx
  contradiction

end RestScenario.SortedSet
