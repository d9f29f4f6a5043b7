import RestScenario.Learning.Relation
import RestScenario.Proofs.Number.Order
import RestScenario.Proofs.Ordered.Set

/-!
# What a relation keeps

A relation is kept by another one that says at least as much: the same targets or more, a
probability at least as high, and all tags of its evidence; a mutual relation is kept by a mutual
one, with its tables and its confirmation (`Relation.KeptBy`). The source itself is passed over
among the targets, because a relation that takes in another one drops it.

New evidence keeps a relation, and a mutual relation keeps what it takes in (`keptBy_absorb`).
-/

namespace RestScenario

namespace Relation

variable {key table tag : String} {r r' r'' other : Relation} {probability : Float}
  {confirmed conflicting : Bool}

/-! ## Keeping -/

/-- What is stored under `key`: a relation of that source, with a probability of the unit
interval. -/
structure Filed (key : String) (r : Relation) : Prop where
  source : r.source = key
  isUnit : Number.isUnit r.probability = true

/-- The relation `r'`, stored under `key` like `r`, says at least as much as `r`. -/
structure KeptBy (key : String) (r r' : Relation) : Prop where
  targets : ∀ t ∈ r.targets, t ≠ key → t ∈ r'.targets
  probability : r.probability ≤ r'.probability
  provenance : ∀ tag ∈ r.provenance, tag ∈ r'.provenance
  shared : ∀ tables confirmed, r.kind = .shared tables confirmed →
    ∃ tables' confirmed', r'.kind = .shared tables' confirmed' ∧
      (∀ t ∈ tables, t ∈ tables') ∧ (confirmed = true → confirmed' = true)

theorem Filed.isNaN (h : r.Filed key) : r.probability.isNaN = false :=
  Number.isNaN_of_isUnit h.isUnit

theorem Filed.keptBy_self (h : r.Filed key) : r.KeptBy key r where
  targets := fun _ ht _ => ht
  probability := Number.le_refl h.isNaN
  provenance := fun _ htag => htag
  shared := fun tables confirmed hkind => ⟨tables, confirmed, hkind, fun _ ht => ht, id⟩

theorem KeptBy.trans (h : r.KeptBy key r') (h' : r'.KeptBy key r'') : r.KeptBy key r'' where
  targets := fun t ht hne => h'.targets t (h.targets t ht hne) hne
  probability := Number.le_trans h.probability h'.probability
  provenance := fun tag htag => h'.provenance tag (h.provenance tag htag)
  shared := by
    intro tables confirmed hkind
    obtain ⟨tables', confirmed', hkind', htables, hconfirmed⟩ := h.shared tables confirmed hkind
    obtain ⟨tables'', confirmed'', hkind'', htables', hconfirmed'⟩ :=
      h'.shared tables' confirmed' hkind'
    exact ⟨tables'', confirmed'', hkind'', fun t ht => htables' t (htables t ht),
      fun hc => hconfirmed' (hconfirmed hc)⟩

/-! ## New relations -/

theorem filed_simple {targets : SortedSet String} (h : probability.isNaN = false) :
    (simple key targets probability tag).Filed key :=
  ⟨rfl, Number.isUnit_clampUnit h⟩

theorem filed_shared {members : SortedSet String} (h : probability.isNaN = false) :
    (shared key members table probability confirmed tag).Filed key :=
  ⟨rfl, Number.isUnit_clampUnit h⟩

theorem isMutual_iff :
    r.isMutual = true ↔ ∃ tables confirmed, r.kind = .shared tables confirmed := by
  unfold isMutual
  cases r.kind <;> simp

/-! ## New evidence -/

theorem mem_addTag {tags : List String} {tag tag' : String} :
    tag' ∈ addTag tags tag ↔ tag' ∈ tags ∨ tag' = tag := by
  unfold addTag
  split
  · rename_i hmem
    have : tag ∈ tags := List.contains_iff_mem.1 hmem
    constructor
    · exact Or.inl
    · rintro (h | rfl) <;> assumption
  · simp

theorem mem_foldl_addTag {tags new : List String} {tag : String} :
    tag ∈ new.foldl addTag tags ↔ tag ∈ tags ∨ tag ∈ new := by
  induction new generalizing tags with
  | nil => simp
  | cons t rest ih => rw [List.foldl_cons, ih, mem_addTag, List.mem_cons, or_assoc]

/-- New evidence never lowers a probability, conflicting or not. -/
theorem le_probability_reinforce (h : r.Filed key) :
    r.probability ≤ (r.reinforce probability tag conflicting).probability :=
  Number.le_smaller (Number.le_larger_left h.isNaN) (Number.isUnit_iff.1 h.isUnit).2

theorem filed_reinforce (h : r.Filed key) :
    (r.reinforce probability tag conflicting).Filed key := by
  refine ⟨h.source, Number.isUnit_iff.2 ⟨?_, ?_⟩⟩
  · exact Number.le_trans (Number.isUnit_iff.1 h.isUnit).1 (le_probability_reinforce h)
  · exact Number.smaller_le_right (Number.isNaN_larger h.isNaN) rfl

theorem keptBy_reinforce (h : r.Filed key) :
    r.KeptBy key (r.reinforce probability tag conflicting) where
  targets := h.keptBy_self.targets
  probability := le_probability_reinforce h
  provenance := by
    intro tag' htag
    show tag' ∈ if tag.isEmpty then r.provenance else addTag r.provenance tag
    split
    · exact htag
    · exact mem_addTag.2 (.inl htag)
  shared := h.keptBy_self.shared

theorem filed_addTable (h : r.Filed key) : (r.addTable table confirmed).Filed key := by
  unfold addTable
  cases r.kind with
  | shared tables was => exact ⟨h.source, h.isUnit⟩
  | simple | onSelf => exact h

theorem keptBy_addTable (h : r.Filed key) : r.KeptBy key (r.addTable table confirmed) := by
  unfold addTable
  cases hkind : r.kind with
  | simple | onSelf => exact h.keptBy_self
  | shared tables was =>
    refine ⟨h.keptBy_self.targets, h.keptBy_self.probability, h.keptBy_self.provenance, ?_⟩
    intro tables' was' hkind'
    obtain ⟨rfl, rfl⟩ := RelationKind.shared.inj (hkind.symm.trans hkind')
    refine ⟨_, _, rfl, fun t ht => SortedSet.mem_insert.2 (.inr ht), ?_⟩
    rintro rfl
    exact Bool.true_or _

theorem isMutual_addTable (h : r.isMutual = true) :
    (r.addTable table confirmed).isMutual = true := by
  obtain ⟨tables, was, hkind⟩ := isMutual_iff.1 h
  unfold addTable isMutual
  rw [hkind]

/-! ## Relations that are taken in -/

theorem filed_absorb (h : r.Filed key) (h' : other.Filed key) : (r.absorb other).Filed key :=
  ⟨h.source, Number.isUnit_larger h.isUnit h'.isUnit⟩

theorem mem_targets_absorb {t : String} :
    t ∈ (r.absorb other).targets ↔
      t ∈ r.targets ∨ (t = other.source ∨ t ∈ other.targets) ∧ t ≠ r.source := by
  show t ∈ r.targets.insertMany _ ↔ _
  rw [SortedSet.mem_insertMany, List.mem_filter, decide_eq_true_iff]
  exact or_congr_right (and_congr_left fun _ => SortedSet.mem_insert)

theorem isMutual_absorb (h : r.isMutual = true) : (r.absorb other).isMutual = true := by
  obtain ⟨tables, was, hkind⟩ := isMutual_iff.1 h
  unfold absorb isMutual
  rw [hkind]
  cases other.kind <;> rfl

/-- A relation that takes in another one is kept. -/
theorem keptBy_absorb_self (h : r.Filed key) : r.KeptBy key (r.absorb other) where
  targets := fun _ ht _ => mem_targets_absorb.2 (.inl ht)
  probability := Number.le_larger_left h.isNaN
  provenance := fun _ htag => mem_foldl_addTag.2 (.inl htag)
  shared := by
    intro tables was hkind
    show ∃ tables' was', RelationKind.merge r.kind other.kind = .shared tables' was' ∧ _
    rw [hkind]
    cases other.kind with
    | simple | onSelf => exact ⟨tables, was, rfl, fun _ ht => ht, id⟩
    | shared tables' was' =>
      refine ⟨_, _, rfl, fun t ht => SortedSet.mem_union.2 (.inl ht), ?_⟩
      rintro rfl
      exact Bool.true_or _

/-- **A mutual relation keeps what it takes in.** -/
theorem keptBy_absorb (hmutual : r.isMutual = true) (h : r.Filed key) (h' : other.Filed key) :
    other.KeptBy key (r.absorb other) where
  targets := fun _ ht hne => mem_targets_absorb.2 (.inr ⟨.inr ht, h.source ▸ hne⟩)
  probability := Number.le_larger_right h'.isNaN
  provenance := fun _ htag => mem_foldl_addTag.2 (.inr htag)
  shared := by
    intro tables' was' hkind'
    obtain ⟨tables, was, hkind⟩ := isMutual_iff.1 hmutual
    show ∃ tables'' was'', RelationKind.merge r.kind other.kind = .shared tables'' was'' ∧ _
    rw [hkind, hkind']
    refine ⟨_, _, rfl, fun t ht => SortedSet.mem_union.2 (.inr ht), ?_⟩
    rintro rfl
    exact Bool.or_true _

/-- A mutual relation that takes in several keeps itself and all of them. -/
theorem foldl_absorb (others : List Relation) (hmutual : r.isMutual = true) (h : r.Filed key)
    (h' : ∀ other ∈ others, other.Filed key) :
    (others.foldl absorb r).Filed key ∧ r.KeptBy key (others.foldl absorb r) ∧
      ∀ other ∈ others, other.KeptBy key (others.foldl absorb r) := by
  induction others generalizing r with
  | nil => exact ⟨h, h.keptBy_self, by simp⟩
  | cons first rest ih =>
    obtain ⟨hfirst, hrest⟩ := List.forall_mem_cons.1 h'
    obtain ⟨filed, kept, keptRest⟩ :=
      ih (r := r.absorb first) (isMutual_absorb hmutual) (filed_absorb h hfirst) hrest
    refine ⟨filed, (keptBy_absorb_self h).trans kept, List.forall_mem_cons.2 ⟨?_, keptRest⟩⟩
    exact (keptBy_absorb hmutual h hfirst).trans kept

end Relation

end RestScenario
