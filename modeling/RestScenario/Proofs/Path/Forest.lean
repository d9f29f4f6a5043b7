import RestScenario.Proofs.Path

/-!
# Paths form a forest

Paths are compared by the lists of their forms, so the rest is about prefixes. Being a shorter prefix is a
strict order, and of two prefixes of one list the shorter is a prefix of the longer. So above a path there
is a single line of ancestors, and their numbers of levels tell them apart, but for the spelling
(`paths_form_forest`).
-/

namespace RestScenario

namespace PathTemplate

variable {p q a b : PathTemplate}

theorem equivalence_isEquivalent :
    Equivalence fun p q : PathTemplate => p.isEquivalent q = true := by
  simp only [isEquivalent_iff_forms]
  exact ⟨fun _ => rfl, Eq.symm, Eq.trans⟩

theorem isAncestorOf_congr {p' q' : PathTemplate} (hp : p.isEquivalent p' = true)
    (hq : q.isEquivalent q' = true) : p.isAncestorOf q = p'.isAncestorOf q' := by
  rw [isEquivalent_iff_forms] at hp hq
  rw [Bool.eq_iff_iff, isAncestorOf_iff_forms, isAncestorOf_iff_forms, hp, hq,
    levels_eq_of_forms_eq hp, levels_eq_of_forms_eq hq]

section Line

variable (ha : a.isSameOrAncestorOf p = true) (hb : b.isSameOrAncestorOf p = true)
include ha hb

/-- Of two paths above a third, the shorter is above the longer. -/
theorem isAncestorOf_iff_levels : a.isAncestorOf b = true ↔ a.levels < b.levels := by
  rw [isSameOrAncestorOf_iff_forms] at ha hb
  rw [isAncestorOf_iff_forms, and_iff_left_iff_imp]
  intro hlevels
  exact List.prefix_of_prefix_length_le ha hb (by simpa using Nat.le_of_lt hlevels)

/-- Two paths of one length above a third differ at most in their spelling. -/
theorem isEquivalent_iff_levels : a.isEquivalent b = true ↔ a.levels = b.levels := by
  rw [isSameOrAncestorOf_iff_forms] at ha hb
  rw [isEquivalent_iff_forms]
  constructor
  · exact levels_eq_of_forms_eq
  · intro hlevels
    have hprefix := List.prefix_of_prefix_length_le ha hb (by simpa using Nat.le_of_eq hlevels)
    exact hprefix.eq_of_length (by simpa using hlevels)

end Line

end PathTemplate

/-- **Paths form a forest.** Equivalence is an equivalence relation, and being an ancestor is
irreflexive and transitive and the same for equivalent paths. Two paths that are each the same as a
third or an ancestor of it are compared by their numbers of levels alone: the one with fewer is an
ancestor of the other, and with equally many they are equivalent. -/
theorem paths_form_forest :
    (Equivalence fun p q : PathTemplate => p.isEquivalent q = true) ∧
    (∀ p : PathTemplate, ¬ p.isAncestorOf p = true) ∧
    (∀ o p q : PathTemplate, o.isAncestorOf p = true → p.isAncestorOf q = true →
      o.isAncestorOf q = true) ∧
    (∀ p p' q q' : PathTemplate, p.isEquivalent p' = true → q.isEquivalent q' = true →
      (p.isAncestorOf q = true ↔ p'.isAncestorOf q' = true)) ∧
    ∀ a b p : PathTemplate, a.isSameOrAncestorOf p = true → b.isSameOrAncestorOf p = true →
      (a.isAncestorOf b = true ↔ a.levels < b.levels) ∧
      (b.isAncestorOf a = true ↔ b.levels < a.levels) ∧
      (a.isEquivalent b = true ↔ a.levels = b.levels) := by
  refine ⟨PathTemplate.equivalence_isEquivalent, ?_, ?_, ?_, ?_⟩
  · intro p h
    exact Nat.lt_irrefl _ (PathTemplate.isAncestorOf_iff_forms.1 h).1
  · intro o p q
    exact PathTemplate.isAncestorOf_trans
  · intro p p' q q' hp hq
    rw [PathTemplate.isAncestorOf_congr hp hq]
  · intro a b p ha hb
    exact ⟨PathTemplate.isAncestorOf_iff_levels ha hb, PathTemplate.isAncestorOf_iff_levels hb ha,
      PathTemplate.isEquivalent_iff_levels ha hb⟩

end RestScenario
