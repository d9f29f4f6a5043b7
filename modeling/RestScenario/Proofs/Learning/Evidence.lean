import RestScenario.Learning.Derivation
import RestScenario.Learning.Refinement
import RestScenario.Proofs.Learning.Shift
import RestScenario.Proofs.Learning.Store
import RestScenario.Proofs.Number.Defined
import RestScenario.Proofs.Number.Order

/-!
# Properties that outlast evidence

Whatever an engine learns from, its relations change in two ways only: a source takes evidence for a
dependency, or members take evidence for a shared table. A property of knowledge that outlasts both
outlasts all ways of learning: from names, from executions and from edits
(`OutlastsWhole.learnFrom`).

Names and executions tell of dependencies on other resources alone, so what is to outlast them need not
outlast evidence for a dependency of a resource on itself (`OutlastsOthers`). An edit credits resources
of the two scenarios alone, one pair at a time, so what is to outlast it may ask for them
(`Inference.OutlastsCredits`).

Most properties also hold while some members have filed the evidence and others not (`Outlasts`);
those are shown member by member. Evidence may be limited to admitted probabilities. What names,
executions and edits state is always defined, so defined probabilities must be admitted.
-/

namespace RestScenario

namespace Knowledge

/-- The evidence for a shared table, filed under one member. -/
def fileShared (k : Knowledge) (member : String) (members : SortedSet String) (table : String)
    (probability : Float) (confirmed : Bool) (tag : String) : Knowledge :=
  { k with
    dependencies := k.dependencies.upsert member fun rs =>
      mergeShared member members table probability confirmed tag (rs.getD []) }

/-- The property depends on relations and the threshold alone, and stays when a source or a member
takes evidence of an admitted probability. -/
structure Outlasts (admitted : Float → Prop) (P : Knowledge → Prop) : Prop where
  defined : ∀ {p : Float}, p.isNaN = false → admitted p
  threshold : ∀ {k : Knowledge}, P k → admitted k.threshold
  frame : ∀ {k k' : Knowledge}, P k → k'.threshold = k.threshold →
    k'.dependencies = k.dependencies → P k'
  dependency : ∀ {k : Knowledge} {source targets tag p}, admitted p → P k →
    P (k.updateDependency source targets tag p)
  shared : ∀ {k : Knowledge} {member members table p confirmed tag}, admitted p →
    member ∈ members → P k → P (k.fileShared member members table p confirmed tag)

/-- The property depends on relations and the threshold alone, and stays when a source takes evidence
of an admitted probability, or all members of a shared table do. -/
structure OutlastsWhole (admitted : Float → Prop) (P : Knowledge → Prop) : Prop where
  defined : ∀ {p : Float}, p.isNaN = false → admitted p
  threshold : ∀ {k : Knowledge}, P k → admitted k.threshold
  frame : ∀ {k k' : Knowledge}, P k → k'.threshold = k.threshold →
    k'.dependencies = k.dependencies → P k'
  dependency : ∀ {k : Knowledge} {source targets tag p}, admitted p → P k →
    P (k.updateDependency source targets tag p)
  shared : ∀ {k : Knowledge} {members table p confirmed tag}, admitted p → P k →
    P (k.updateShared members table p confirmed tag)

/-- The property depends on relations and the threshold alone, and stays when a source takes defined
evidence for a dependency on another resource, or all members of a shared table take evidence of an
admitted probability. -/
structure OutlastsOthers (admitted : Float → Prop) (P : Knowledge → Prop) : Prop where
  defined : ∀ {p : Float}, p.isNaN = false → admitted p
  threshold : ∀ {k : Knowledge}, P k → admitted k.threshold
  frame : ∀ {k k' : Knowledge}, P k → k'.threshold = k.threshold →
    k'.dependencies = k.dependencies → P k'
  other : ∀ {k : Knowledge} {source target tag p}, p.isNaN = false → source ≠ target → P k →
    P (k.updateDependency source (.singleton target) tag p)
  shared : ∀ {k : Knowledge} {members table p confirmed tag}, admitted p → P k →
    P (k.updateShared members table p confirmed tag)

variable {admitted : Float → Prop} {P : Knowledge → Prop} {k : Knowledge}

theorem OutlastsWhole.others (h : OutlastsWhole admitted P) : OutlastsOthers admitted P where
  defined := h.defined
  threshold := h.threshold
  frame := h.frame
  other := fun hp _ hk => h.dependency (h.defined hp) hk
  shared := h.shared

theorem Outlasts.whole (h : Outlasts admitted P) : OutlastsWhole admitted P where
  defined := h.defined
  threshold := h.threshold
  frame := h.frame
  dependency := h.dependency
  shared := fun {_ members _ _ _ _} hp hk =>
    List.foldlRecOn members.toList _ hk fun _ hk _ hmember => h.shared hp hmember hk

namespace OutlastsOthers

variable (h : OutlastsOthers admitted P)
include h

/-! ## Names -/

theorem relateByTable (hk : P k) : P k.relateByTable :=
  List.foldlRecOn _ _ hk fun _ hk _ _ => h.shared (h.threshold hk) hk

/-- A similarity that reaches the threshold is defined, and resources that are apart are different. -/
theorem relateByType {r other : Resource} {refType : String} (hk : P k) :
    P (k.relateByType r refType other) := by
  unfold Knowledge.relateByType
  split
  · rename_i hapart
    have hne : r.key ≠ other.key := by
      intro heq
      simp [areApart, heq] at hapart
    split
    · exact hk
    · dsimp only
      split
      · rename_i reached
        exact h.other (Number.le_iff.1 reached).2.1 hne hk
      · exact hk
  · exact hk

theorem relateByTypes (resources : List Resource) (hk : P k) : P (k.relateByTypes resources) := by
  refine List.foldlRecOn _ _ hk fun k hk r _ => ?_
  refine List.foldlRecOn _ _ hk fun k hk refType _ => ?_
  exact List.foldlRecOn _ _ hk fun k hk other _ => h.relateByType hk

theorem init {m : ResourceModel} {schema : Schema} {snapshot : Snapshot} (hk : P k) :
    P (k.init m schema snapshot) := by
  have tables : P { k with
      schema
      snapshot
      tables := m.resources.map fun _ r =>
        TableKnowledge.ofResource schema k.threshold k.tokenParser r } := h.frame hk rfl rfl
  have related := h.relateByTypes m.resources.values (h.relateByTable tables)
  exact h.frame related rfl rfl

/-! ## Executions -/

theorem refineActions {calls : List Call} {executions : SortedMap Nat Execution} (hk : P k) :
    P (k.refineActions calls executions).knowledge := by
  refine List.foldlRecOn _ _ (motive := fun state : Refinement => P state.knowledge) hk
    fun state hk ((resource, a), position) _ => ?_
  dsimp only
  split
  · refine List.foldlRecOn _ _ (motive := fun state : Refinement => P state.knowledge) hk
      fun state hk touched _ => ?_
    unfold refineTable
    dsimp only
    split
    · exact h.frame hk rfl rfl
    · exact hk
  · exact hk

theorem relateWriters {table : String} (hk : P k) : P (k.relateWriters table) := by
  unfold Knowledge.relateWriters
  dsimp only
  split
  · exact h.shared (h.defined rfl) hk
  · exact hk

theorem refine {calls : List Call} {executions : SortedMap Nat Execution} (hk : P k) :
    P (k.refine calls executions).1 :=
  List.foldlRecOn _ _ (h.refineActions hk) fun _ hk _ _ => h.relateWriters hk

end OutlastsOthers

/-! ## Member by member -/

namespace Outlasts

variable (h : Outlasts admitted P) (hk : P k)
include h hk

theorem init {m : ResourceModel} {schema : Schema} {snapshot : Snapshot} :
    P (k.init m schema snapshot) := h.whole.others.init hk

theorem refineActions {calls : List Call} {executions : SortedMap Nat Execution} :
    P (k.refineActions calls executions).knowledge := h.whole.others.refineActions hk

theorem relateWriters {table : String} : P (k.relateWriters table) := h.whole.others.relateWriters hk

theorem refine {calls : List Call} {executions : SortedMap Nat Execution} :
    P (k.refine calls executions).1 := h.whole.others.refine hk

end Outlasts

end Knowledge

/-! ## Edits -/

namespace Inference

open Knowledge

/-- The property stays when a resource takes evidence of defined probability for a dependency on
another one, or is seen to be independent of it, if both are among the named ones. -/
structure OutlastsCredits (named : String → Prop) (P : Knowledge → Prop) : Prop where
  dependency : ∀ {k : Knowledge} {source target tag p}, p.isNaN = false → named source →
    named target → P k → P (k.updateDependency source (.singleton target) tag p)
  nonDependency : ∀ {k : Knowledge} {source target}, named source → named target → P k →
    P (k.recordNonDependency source target)

variable {named : String → Prop} {P : Knowledge → Prop} {k k' : Knowledge}
  {previous current : Evaluated} {distance : Int} {verdict : Verdict} {tag : String} {index : Nat}
  (h : OutlastsCredits named P) (hcurrent : ∀ c ∈ current.calls, named c.resource)
include h

/-! ### One credit -/

section

include hcurrent

theorem outlasts_creditOne {target : Call} (htarget : named target.resource) (hk : P k) :
    P (creditOne previous current distance target verdict tag k index) := by
  unfold creditOne
  split
  · exact hk
  · rename_i c hc
    have hsource := hcurrent c (List.mem_of_getElem? hc)
    dsimp only
    split
    · exact h.dependency rfl hsource htarget hk
    · exact h.nonDependency hsource htarget hk

theorem outlasts_creditPair {gained lost : Call} (hgained : named gained.resource)
    (hlost : named lost.resource) (hk : P k) :
    P (creditPair previous current distance gained lost verdict tag k index) := by
  unfold creditPair
  split
  · exact hk
  · rename_i c hc
    have hsource := hcurrent c (List.mem_of_getElem? hc)
    dsimp only
    split
    · split
      · exact h.dependency rfl hsource hgained hk
      · split
        · exact h.dependency rfl hsource hlost hk
        · exact h.dependency rfl hsource hlost (h.dependency rfl hsource hgained hk)
    · exact h.nonDependency hsource hlost (h.nonDependency hsource hgained hk)

end

theorem outlasts_creditMoved {changed : Bool} {moved : Call} {passed : List Call}
    (hmoved : named moved.resource) (hpassed : ∀ c ∈ passed, named c.resource) (hk : P k) :
    P (creditMoved changed moved passed k) := by
  unfold creditMoved
  split
  · exact List.foldlRecOn _ _ hk fun _ hk other hother =>
      h.dependency (Number.isNaN_reciprocal _) hmoved (hpassed other hother) hk
  · exact List.foldlRecOn _ _ hk fun _ hk other hother =>
      h.nonDependency hmoved (hpassed other hother) hk

/-! ### By kind of edit -/

include hcurrent

theorem outlasts_afterAdd (hk : P k) : P (afterAdd previous current verdict k) := by
  unfold afterAdd
  dsimp only
  split
  · exact hk
  · rename_i added hadded
    exact List.foldlRecOn _ _ hk fun _ hk _ _ =>
      outlasts_creditOne h hcurrent (hcurrent added (List.mem_of_getElem? hadded)) hk

theorem outlasts_afterModify (hk : P k) : P (afterModify previous current verdict k) := by
  unfold afterModify
  split
  · exact hk
  · split
    · rename_i new old hnew hold
      exact List.foldlRecOn _ _ hk fun _ hk _ _ =>
        outlasts_creditOne h hcurrent (hcurrent new (List.mem_of_getElem? hnew)) hk
    · exact hk

theorem outlasts_afterSwap (hk : P k) (hafter : afterSwap previous current verdict k = .ok k') :
    P k' := by
  unfold afterSwap at hafter
  split at hafter
  · split at hafter
    · rename_i front back hfront hback
      have hfront := hcurrent front (List.mem_of_getElem? hfront)
      have hback := hcurrent back (List.mem_of_getElem? hback)
      obtain rfl := Except.ok.inj hafter
      refine List.foldlRecOn _ _ ?_ fun _ hk _ _ => outlasts_creditPair h hcurrent hfront hback hk
      have hpassed : ∀ first last, ∀ c ∈ callsBetween current.calls first last, named c.resource :=
        fun _ _ c hc => hcurrent c (List.mem_of_mem_take (List.mem_of_mem_drop hc))
      exact outlasts_creditMoved h hback (hpassed _ _) (outlasts_creditMoved h hfront (hpassed _ _) hk)
    · obtain rfl := Except.ok.inj hafter
      exact hk
  · simp at hafter

variable (hprevious : ∀ c ∈ previous.calls, named c.resource)
include hprevious

theorem outlasts_afterDelete (hk : P k) : P (afterDelete previous current verdict k) := by
  unfold afterDelete
  dsimp only
  split
  · exact hk
  · rename_i deleted hdeleted
    exact List.foldlRecOn _ _ hk fun _ hk _ _ =>
      outlasts_creditOne h hcurrent (hprevious deleted (List.mem_of_getElem? hdeleted)) hk

theorem outlasts_afterReplace (hk : P k)
    (hafter : afterReplace previous current verdict k = .ok k') : P k' := by
  unfold afterReplace at hafter
  split at hafter
  · split at hafter
    · rename_i new old hnew hold
      obtain rfl := Except.ok.inj hafter
      exact List.foldlRecOn _ _ hk fun _ hk _ _ => outlasts_creditPair h hcurrent
        (hcurrent new (List.mem_of_getElem? hnew)) (hprevious old (List.mem_of_getElem? hold)) hk
    · obtain rfl := Except.ok.inj hafter
      exact hk
  · simp at hafter

theorem outlasts_learnEdit (hk : P k) {kind : Edit}
    (hlearned : learnEdit kind previous current verdict k = .ok k') : P k' := by
  cases kind with
  | add => exact Except.ok.inj hlearned ▸ outlasts_afterAdd h hcurrent hk
  | delete => exact Except.ok.inj hlearned ▸ outlasts_afterDelete h hcurrent hprevious hk
  | modify => exact Except.ok.inj hlearned ▸ outlasts_afterModify h hcurrent hk
  | replace => exact outlasts_afterReplace h hcurrent hprevious hk hlearned
  | swap => exact outlasts_afterSwap h hcurrent hk hlearned

/-- What outlasts credits among the resources of two scenarios outlasts the lesson of their edit. -/
theorem OutlastsCredits.learnFrom {kind : Edit} (hk : P k)
    (hlearned : k.learnFrom previous current verdict = .ok (kind, k')) : P k' := by
  obtain ⟨-, hedit⟩ := learnFrom_eq_ok_iff.1 hlearned
  exact outlasts_learnEdit h hcurrent hprevious hk hedit

end Inference

theorem Knowledge.OutlastsWhole.learnFrom {admitted : Float → Prop} {P : Knowledge → Prop}
    (h : OutlastsWhole admitted P) {previous current : Evaluated} {verdict : Verdict} {kind : Edit}
    {k k' : Knowledge} (hk : P k)
    (hlearned : k.learnFrom previous current verdict = .ok (kind, k')) : P k' := by
  have credits : Inference.OutlastsCredits (fun _ => True) P :=
    ⟨fun hp _ _ hk => h.dependency (h.defined hp) hk, fun _ _ hk => h.frame hk rfl rfl⟩
  exact credits.learnFrom (fun _ _ => trivial) (fun _ _ => trivial) hk hlearned

end RestScenario
