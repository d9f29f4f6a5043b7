import Mathlib.Data.List.Nodup
import RestScenario.Proofs.Learning.Attribution
import RestScenario.Proofs.Learning.Scope

/-!
# Dependencies on other resources

A resource is known to depend on others alone (`Knowledge.OnOthers`) as long as nothing else is
learned. Names relate resources that are apart, and a mutual relation has the other members as targets.
An edit credits calls at different places of the scenario that came of it, or a call with the one that
was lost to a deletion or a replacement. So where no two calls are on one resource, before the edit or
after it, all credits are about different resources (`Inference.judges_learnFrom`).

An edit may come with changes that show in the identity of no call (`Inference.EditedTo`); what was
deleted or replaced is found all the same.
-/

namespace RestScenario

namespace Knowledge

open RestScenario.Relation

/-! ## Knowledge of other resources -/

/-- Relations are in order, and no resource is known to depend on itself. -/
structure OnOthers (k : Knowledge) : Prop where
  regular : k.RegularStore
  other : ∀ source, k.isDependent source source = false

variable {k k' : Knowledge} {source target : String} {r : Relation}

theorem onOthers_empty (threshold : Float) (tokenParser : Bool) :
    (empty threshold tokenParser).OnOthers where
  regular := regularStore_empty threshold tokenParser
  other := fun _ => rfl

namespace OnOthers

variable (h : k.OnOthers)
include h

theorem not_mem_targets (hr : r ∈ k.relationsOf source) : source ∉ r.targets := fun hself =>
  Bool.false_ne_true ((h.other source).symm.trans (isDependent_iff.2 ⟨r, hr, hself⟩))

/-- No relation of a resource is one to itself. -/
theorem isOnSelf_eq (hr : r ∈ k.relationsOf source) : r.isOnSelf = false := by
  refine decide_eq_false fun hself => ?_
  have htargets := (((h.regular source).regular r hr).onSelf).1 hself
  exact h.not_mem_targets hr (htargets ▸ SortedSet.mem_singleton.2 rfl)

theorem frame (hdependencies : k'.dependencies = k.dependencies) : k'.OnOthers := by
  have same : k'.relationsOf = k.relationsOf := by
    unfold relationsOf
    rw [hdependencies]
  refine ⟨fun key => ?_, fun source => ?_⟩
  · rw [same]
    exact h.regular key
  · unfold isDependent
    rw [same]
    exact h.other source

theorem updateDependency {targets : SortedSet String} {tag : String} {probability : Float}
    (hsource : source ∉ targets) : (k.updateDependency source targets tag probability).OnOthers where
  regular := outlasts_regularStore.dependency trivial h.regular
  other := by
    intro key
    refine Bool.eq_false_iff.2 fun hself => ?_
    rcases isDependent_updateDependency_iff.1 hself with hbefore | ⟨rfl, hmem⟩
    · exact Bool.false_ne_true ((h.other key).symm.trans hbefore)
    · exact hsource hmem

/-- A mutual relation has the other members as targets. -/
theorem updateShared {members : SortedSet String} {table tag : String} {probability : Float}
    {confirmed : Bool} : (k.updateShared members table probability confirmed tag).OnOthers := by
  refine List.foldlRecOn members.toList _ h fun k hk member hmember => ?_
  refine ⟨outlasts_regularStore.shared trivial hmember hk.regular, fun key => ?_⟩
  refine Bool.eq_false_iff.2 fun hself => ?_
  rcases isDependent_fileShared hk.regular hself with hbefore | ⟨-, hne⟩
  · exact Bool.false_ne_true ((hk.other key).symm.trans hbefore)
  · exact hne rfl

end OnOthers

theorem outlastsOthers_onOthers : OutlastsOthers (fun _ => True) OnOthers where
  defined := fun _ => trivial
  threshold := fun _ => trivial
  frame := fun hk _ hdependencies => hk.frame hdependencies
  other := fun _ hne hk => hk.updateDependency fun hmem => hne (SortedSet.mem_singleton.1 hmem)
  shared := fun _ hk => hk.updateShared

/-- Where more is known of different resources alone, none becomes dependent on itself. -/
theorem Judges.other (h : Judges (· ≠ ·) k k') (hk : k.isDependent source source = false) :
    k'.isDependent source source = false :=
  Bool.eq_false_iff.2 fun hself => h.learns source source (.inl ⟨hk, hself⟩) rfl

end Knowledge

/-! ## Edits -/

namespace Inference

open Knowledge

/-- An edit turned calls into others, and nothing else shows in the identity of a call. -/
def EditedTo (previous current : List Call) : Prop :=
  ∃ edit positions shown, Edited edit positions previous shown ∧
    current.map identity = shown.map identity

section Lists

variable {previous current calls : List Call} {kind edit : Edit} {positions : List Nat}
  {lost c : Call} {s t : String}

theorem ne_of_apart (hdistinct : (calls.map Call.resource).Nodup) (h : Apart calls s t) : s ≠ t := by
  obtain ⟨i, j, c, d, hne, hc, hd, rfl, rfl⟩ := h
  exact resource_ne_of_ne hdistinct hc hd hne.symm

/-- A call and one behind it are on different resources. -/
theorem ne_of_fromTo_behind {place : Nat} (hdistinct : (calls.map Call.resource).Nodup)
    (hc : calls[place]? = some c) (h : FromTo (calls.drop (place + 1)) [c] s t) : s ≠ t := by
  obtain ⟨⟨d, hd, rfl⟩, e, he, rfl⟩ := h
  obtain rfl := List.mem_singleton.1 he
  rw [← callsBetween_length] at hd
  exact ne_of_apart hdistinct (apart_of_mem_callsBetween hc (by simp [mem_between]) hd)

/-- A call that was lost is on a resource that no call is left on. -/
theorem ne_of_fromTo_lost {behind : List Call} (hlost : lost.resource ∉ calls.map Call.resource)
    (hbehind : behind ⊆ calls) (h : FromTo behind [lost] s t) : s ≠ t := by
  obtain ⟨⟨d, hd, rfl⟩, e, he, rfl⟩ := h
  obtain rfl := List.mem_singleton.1 he
  exact fun heq => hlost (heq ▸ List.mem_map_of_mem (hbehind hd))

/-- What was deleted or replaced stands where the calls first differ, and no call is left on its
resource. -/
theorem Edited.not_mem_of_lost (h : Edited edit positions previous current)
    (hdistinct : (previous.map Call.resource).Nodup) (hkind : edit = .delete ∨ edit = .replace)
    (hlost : previous[firstMismatch previous current]? = some lost) :
    lost.resource ∉ current.map Call.resource := by
  cases h with
  | add | modify | swap => simp at hkind
  | @delete front back deleted =>
    rw [List.map_append, List.map_cons, List.nodup_middle, List.nodup_cons] at hdistinct
    have hplace : firstMismatch (front ++ deleted :: back) (front ++ back) = front.length := by
      refine firstMismatch_append fun p hp c hc => sameCall_of_resource_ne ?_
      obtain rfl := Option.some.inj hp
      have hmem := List.mem_map_of_mem (f := Call.resource) (List.mem_of_mem_head? hc)
      exact fun heq => hdistinct.1 (heq ▸ List.mem_append_right _ hmem)
    rw [hplace] at hlost
    obtain rfl : deleted = lost := by simpa using hlost
    rw [List.map_append]
    exact hdistinct.1
  | @replace front back old new fresh =>
    rw [List.map_append, List.map_cons, List.nodup_middle, List.nodup_cons] at hdistinct
    have hne : old.resource ≠ new.resource := fresh old (by simp)
    have hplace : firstMismatch (front ++ old :: back) (front ++ new :: back) = front.length := by
      refine firstMismatch_append fun p hp c hc => ?_
      obtain rfl := Option.some.inj hp
      obtain rfl := Option.some.inj hc
      exact sameCall_of_resource_ne hne
    rw [hplace] at hlost
    obtain rfl : old = lost := by simpa using hlost
    rw [List.map_append, List.map_cons, List.perm_middle.mem_iff, List.mem_cons, not_or]
    exact ⟨hne, hdistinct.1⟩

theorem EditedTo.not_mem_of_lost (h : EditedTo previous current)
    (hdistinct : (previous.map Call.resource).Nodup)
    (hclass : classify previous current = .ok kind) (hkind : kind = .delete ∨ kind = .replace)
    (hlost : previous[firstMismatch previous current]? = some lost) :
    lost.resource ∉ current.map Call.resource := by
  obtain ⟨edit, positions, shown, hedited, hsame⟩ := h
  obtain ⟨recognized, hrecognized, hshows⟩ := hedited.recognized
  -- a deletion and a replacement are recognized as nothing else
  obtain rfl : recognized = kind :=
    Except.ok.inj ((hshows.congr hsame).classify_eq.symm.trans hclass)
  have hedit : edit = .delete ∨ edit = .replace := by
    cases hrecognized with
    | itself => exact hkind
    | exchange | alike => simp at hkind
  rw [map_resource_of_map_identity hsame]
  rw [firstMismatch_congr hsame] at hlost
  exact hedited.not_mem_of_lost hdistinct hedit hlost

end Lists

variable {previous current : Evaluated} {verdict : Verdict} {kind : Edit} {k k' : Knowledge}

/-- **An edit teaches of different resources alone**, where no two calls are on one resource. -/
theorem judges_learnFrom (hprevious : (previous.calls.map Call.resource).Nodup)
    (hcurrent : (current.calls.map Call.resource).Nodup)
    (hedited : EditedTo previous.calls current.calls)
    (h : k.learnFrom previous current verdict = .ok (kind, k')) : Judges (· ≠ ·) k k' := by
  obtain ⟨hkind, hedit⟩ := learnFrom_eq_ok_iff.1 h
  have hteaches := teaches_learnEdit hkind hedit
  cases kind with
  | add =>
    obtain ⟨added, hadded, hcredits⟩ := hteaches
    exact hcredits.judges.mono fun s t => ne_of_fromTo_behind hcurrent hadded
  | delete =>
    obtain ⟨deleted, hdeleted, hcredits⟩ := hteaches
    have hlost := hedited.not_mem_of_lost hprevious hkind (.inl rfl) hdeleted
    exact hcredits.judges.mono fun s t => ne_of_fromTo_lost hlost (List.drop_subset _ _)
  | modify =>
    rcases hteaches with ⟨-, rfl⟩ | ⟨sampled, hsampled, hcredits⟩
    · exact .refl
    · exact hcredits.judges.mono fun s t => ne_of_fromTo_behind hcurrent hsampled
  | replace =>
    obtain ⟨new, old, hnew, hold, hcredits⟩ := hteaches
    have hlost := hedited.not_mem_of_lost hprevious hkind (.inr rfl) hold
    refine hcredits.judges.mono fun s t hst => ?_
    obtain ⟨hs, e, he, ht⟩ := hst
    rcases List.mem_pair.1 he with rfl | rfl
    · exact ne_of_fromTo_behind hcurrent hnew ⟨hs, e, List.mem_singleton_self _, ht⟩
    · exact ne_of_fromTo_lost hlost (List.drop_subset _ _) ⟨hs, e, List.mem_singleton_self _, ht⟩
  | swap =>
    obtain ⟨p, q, front, back, -, -, -, -, hjudges, -⟩ := exchanged_afterSwap hedit
    exact hjudges.mono fun s t hst => ne_of_apart hcurrent hst.2

end Inference

/-! ## Lessons -/

/-- What the lesson tells of dependencies is about different resources: the one of a dependency is none
of its targets, and an edit is one of calls on different resources. -/
def Lesson.IsOnOthers : Lesson → Prop
  | .dependency source targets _ _ => source ∉ targets
  | .edit previous current _ => (previous.calls.map Call.resource).Nodup ∧
      (current.calls.map Call.resource).Nodup ∧ Inference.EditedTo previous.calls current.calls
  | .nonDependency _ _ | .shared .. | .names .. | .executions .. | .snapshot _ => True

/-- **No resource becomes dependent on itself** by lessons about different resources. -/
theorem Knowledge.OnOthers.learn {k : Knowledge} {lesson : Lesson} (h : k.OnOthers)
    (hlesson : lesson.IsOnOthers) : (k.learn lesson).OnOthers := by
  cases lesson with
  | dependency source targets tag probability => exact h.updateDependency hlesson
  | nonDependency source target => exact h.frame rfl
  | shared members table probability confirmed tag => exact h.updateShared
  | names m schema snapshot => exact outlastsOthers_onOthers.init h
  | executions calls executions => exact outlastsOthers_onOthers.refine h
  | snapshot snapshot => exact h.frame rfl
  | edit previous current verdict =>
    obtain ⟨hprevious, hcurrent, hedited⟩ := hlesson
    unfold Knowledge.learn
    dsimp only
    split
    · rename_i hlearned
      exact ⟨outlasts_regularStore.whole.learnFrom h.regular hlearned, fun source =>
        (Inference.judges_learnFrom hprevious hcurrent hedited hlearned).other (h.other source)⟩
    · exact h

end RestScenario
