import RestScenario.Learning.Knowledge

/-!
# The store of relations

Evidence changes the list of one source and leaves the lists of all others alone. After evidence for
a dependency the source depends on its targets and on what it depended on before
(`isDependent_updateDependency_iff`). Evidence for a shared table makes one mutual relation, new or
not, take in others of the list (`mergeShared_cases`).
-/

namespace RestScenario.Knowledge

variable {k : Knowledge} {key source target tag : String} {targets : SortedSet String}
  {probability : Float} {conflicting : Bool}

theorem relationsOf_upsert_self {f : Option (List Relation) → List Relation} :
    relationsOf { k with dependencies := k.dependencies.upsert key f } key =
      f (k.dependencies.get? key) := by
  unfold relationsOf
  rw [SortedMap.get?_upsert_self]
  rfl

theorem relationsOf_upsert_of_ne {f : Option (List Relation) → List Relation} (h : key ≠ source) :
    relationsOf { k with dependencies := k.dependencies.upsert source f } key =
      k.relationsOf key := by
  unfold relationsOf
  rw [SortedMap.get?_upsert_of_ne _ h]

theorem isDependent_iff :
    k.isDependent source target = true ↔ ∃ r ∈ k.relationsOf source, target ∈ r.targets := by
  unfold isDependent
  rw [List.any_eq_true]
  exact exists_congr fun r => and_congr_right fun _ => decide_eq_true_iff

/-- Evidence for a dependency of one source says nothing of another. -/
theorem relationsOf_updateDependency_of_ne (h : key ≠ source) :
    (k.updateDependency source targets tag probability).relationsOf key = k.relationsOf key := by
  unfold updateDependency
  split
  · rfl
  · exact relationsOf_upsert_of_ne h

theorem relationsOf_recordNonDependency :
    (k.recordNonDependency source target).relationsOf key = k.relationsOf key := rfl

theorem exists_mem_reinforceOrAdd {relations : List Relation} :
    (∃ r ∈ reinforceOrAdd source targets tag probability conflicting relations,
      target ∈ r.targets) ↔ (∃ r ∈ relations, target ∈ r.targets) ∨ target ∈ targets := by
  induction relations with
  | nil => simp [reinforceOrAdd, Relation.simple]
  | cons r rest ih =>
    unfold reinforceOrAdd
    split
    · rename_i heq
      -- the reinforced relation keeps its targets, which are those of the evidence
      have htargets : (r.reinforce probability tag conflicting).targets = targets := heq
      simp only [List.mem_cons, exists_eq_or_imp, htargets, heq]
      rw [or_right_comm, or_self]
    · simp only [List.mem_cons, exists_eq_or_imp, ih, or_assoc]

/-- Evidence for a dependency makes its source depend on its targets, and says nothing of others. -/
theorem isDependent_updateDependency_iff :
    (k.updateDependency source targets tag probability).isDependent key target = true ↔
      k.isDependent key target = true ∨ key = source ∧ target ∈ targets := by
  by_cases hkey : key = source
  · subst hkey
    rw [and_iff_right rfl]
    unfold updateDependency
    split
    · rename_i hempty
      have none_in : target ∉ targets := by
        intro h
        rw [show target ∈ targets ↔ target ∈ targets.toList from Iff.rfl,
          List.isEmpty_iff.1 hempty] at h
        exact List.not_mem_nil h
      simp [none_in]
    · rw [isDependent_iff, isDependent_iff, relationsOf_upsert_self]
      exact exists_mem_reinforceOrAdd
  · rw [isDependent_iff, isDependent_iff, relationsOf_updateDependency_of_ne hkey]
    simp [hkey]

/-- After evidence for a dependency the source depends on each of its targets. -/
theorem isDependent_updateDependency (h : target ∈ targets) :
    (k.updateDependency source targets tag probability).isDependent source target = true :=
  isDependent_updateDependency_iff.2 (.inr ⟨rfl, h⟩)

theorem nonDependencies_updateDependency :
    (k.updateDependency source targets tag probability).nonDependencies = k.nonDependencies := by
  unfold updateDependency
  split <;> rfl

/-- Evidence of independence is noted of its source and target alone. -/
theorem isNonDependent_recordNonDependency_iff {target' : String} :
    (k.recordNonDependency source target).isNonDependent key target' = true ↔
      k.isNonDependent key target' = true ∨ key = source ∧ target' = target := by
  unfold isNonDependent nonDependenciesOf recordNonDependency
  by_cases hkey : key = source
  · subst hkey
    rw [SortedMap.get?_upsert_self]
    simp [or_comm]
  · rw [SortedMap.get?_upsert_of_ne _ hkey]
    simp [hkey]

/-! ## Shared tables -/

/-- A mutual relation takes in what lies inside it and moves to the end. -/
def takeIn (base : Relation) (others : List Relation) : List Relation :=
  others.filter (fun r => !isNarrower base.members r) ++
    [(others.filter (isNarrower base.members)).foldl Relation.absorb base]

theorem mergeShared_cases (key : String) (members : SortedSet String) (table : String)
    (probability : Float) (confirmed : Bool) (tag : String) (relations : List Relation) :
    mergeShared key members table probability confirmed tag relations =
        takeIn (.shared key members table probability confirmed tag) relations ∨
      ∃ front r back, relations = front ++ r :: back ∧ isCovering members r = true ∧
        mergeShared key members table probability confirmed tag relations =
          takeIn ((r.reinforce probability tag false).addTable table confirmed)
            (front ++ back) := by
  unfold mergeShared
  cases hfind : relations.find? (isCovering members) with
  | none => exact .inl rfl
  | some r =>
    obtain ⟨hcovers, front, back, rfl, hfront⟩ := List.find?_eq_some_iff_append.1 hfind
    -- The covering relation leaves its place; none before it covers the members.
    have erased : (front ++ r :: back).eraseP (isCovering members) = front ++ back := by
      rw [List.eraseP_append_right _ fun q hq => by simpa using hfront q hq,
        List.eraseP_cons_of_pos hcovers]
    refine .inr ⟨front, r, back, rfl, hcovers, ?_⟩
    simp only [erased]
    rfl

end RestScenario.Knowledge
