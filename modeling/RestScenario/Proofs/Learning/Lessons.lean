import RestScenario.Proofs.Learning.Growth

/-!
# Learning, lesson by lesson

An engine learns from evidence that is stated to it, from the names of a resource model, from
executions and from edits. A run is any sequence of such lessons. Every relation stored at some
moment of a run is kept at every later one (`learned_evidence_stays`).

What outlasts evidence outlasts a run of lessons (`OutlastsWhole.learnAll`); the lesson of an edit that
cannot be made out leaves knowledge as it is.
-/

namespace RestScenario

/-- What an engine learns from. -/
inductive Lesson where
  /-- A source depends on targets. -/
  | dependency (source : String) (targets : SortedSet String) (tag : String) (probability : Float)
  /-- A source is independent of a target. -/
  | nonDependency (source target : String)
  /-- Members share a table. -/
  | shared (members : SortedSet String) (table : String) (probability : Float) (confirmed : Bool)
    (tag : String)
  /-- The names of a resource model, in relation to a database. -/
  | names (m : ResourceModel) (schema : Schema) (snapshot : Snapshot)
  /-- What the actions of calls did to the database, by position. -/
  | executions (calls : List Call) (executions : SortedMap Nat Execution)
  /-- The rows that exist now. -/
  | snapshot (snapshot : Snapshot)
  /-- The evaluation of a scenario that an edit made from another one. -/
  | edit (previous current : Evaluated) (verdict : Verdict)

namespace Lesson

/-- The probability that a lesson states, if it states one, is defined. -/
def IsDefined : Lesson → Prop
  | dependency _ _ _ probability => probability.isNaN = false
  | shared _ _ probability _ _ => probability.isNaN = false
  | _ => True

instance (lesson : Lesson) : Decidable lesson.IsDefined :=
  match lesson with
  | dependency _ _ _ probability => inferInstanceAs (Decidable (probability.isNaN = false))
  | shared _ _ probability _ _ => inferInstanceAs (Decidable (probability.isNaN = false))
  | nonDependency .. | names .. | executions .. | snapshot .. | edit .. => .isTrue trivial

/-- The probability that a lesson states, if it states one, is admitted. -/
def Admitted (admitted : Float → Prop) : Lesson → Prop
  | dependency _ _ _ probability => admitted probability
  | shared _ _ probability _ _ => admitted probability
  | _ => True

theorem isDefined_iff (lesson : Lesson) :
    lesson.IsDefined ↔ lesson.Admitted (·.isNaN = false) := by
  cases lesson <;> exact Iff.rfl

end Lesson

namespace Knowledge

/-- What is known after a lesson. -/
def learn (k : Knowledge) : Lesson → Knowledge
  | .dependency source targets tag probability => k.updateDependency source targets tag probability
  | .nonDependency source target => k.recordNonDependency source target
  | .shared members table probability confirmed tag =>
    k.updateShared members table probability confirmed tag
  | .names m schema snapshot => k.init m schema snapshot
  | .executions calls executions => (k.refine calls executions).1
  | .snapshot snapshot => k.refreshSnapshot snapshot
  | .edit previous current verdict =>
    match k.learnFrom previous current verdict with
    | .ok (_, learned) => learned
    | .error _ => k

/-- What is known after several lessons. -/
def learnAll (k : Knowledge) (lessons : List Lesson) : Knowledge := lessons.foldl learn k

variable {k : Knowledge}

/-- A property that outlasts evidence outlasts lessons. -/
theorem OutlastsWhole.learn {admitted : Float → Prop} {P : Knowledge → Prop}
    (h : OutlastsWhole admitted P) {lesson : Lesson} (hlesson : lesson.Admitted admitted) (hk : P k) :
    P (k.learn lesson) := by
  cases lesson with
  | dependency source targets tag probability => exact h.dependency hlesson hk
  | nonDependency source target => exact h.frame hk rfl rfl
  | shared members table probability confirmed tag => exact h.shared hlesson hk
  | names m schema snapshot => exact h.others.init hk
  | executions calls executions => exact h.others.refine hk
  | snapshot snapshot => exact h.frame hk rfl rfl
  | edit previous current verdict =>
    unfold Knowledge.learn
    dsimp only
    split
    · rename_i hlearned
      exact h.learnFrom hk hlearned
    · exact hk

theorem OutlastsWhole.learnAll {admitted : Float → Prop} {P : Knowledge → Prop}
    (h : OutlastsWhole admitted P) {lessons : List Lesson}
    (hlessons : ∀ lesson ∈ lessons, lesson.Admitted admitted) (hk : P k) : P (k.learnAll lessons) :=
  List.foldlRecOn lessons Knowledge.learn hk fun _ hk lesson hmem =>
    h.learn (hlessons lesson hmem) hk

theorem Outlasts.learnAll {admitted : Float → Prop} {P : Knowledge → Prop} (h : Outlasts admitted P)
    {lessons : List Lesson} (hlessons : ∀ lesson ∈ lessons, lesson.Admitted admitted) (hk : P k) :
    P (k.learnAll lessons) := h.whole.learnAll hlessons hk

/-- Defined lessons grow knowledge. -/
theorem grows_learnAll {lessons : List Lesson} (h : ∀ lesson ∈ lessons, lesson.IsDefined) :
    k.Grows (k.learnAll lessons) := by
  intro hk
  have admitted : ∀ lesson ∈ lessons, lesson.Admitted (·.isNaN = false) :=
    fun lesson hmem => lesson.isDefined_iff.1 (h lesson hmem)
  exact (outlasts_grows hk).learnAll admitted .refl hk

end Knowledge

/-- **Learned evidence is never lost or weakened.** Take any run from nothing learned, in which no
stated probability and not the threshold is undefined, and any two moments of it. Every relation
stored at the first has a probability of the unit interval, and a relation stored at the second
under the same source keeps it. So a dependency on another resource, once learned, stays. -/
theorem learned_evidence_stays {threshold : Float} {first later : List Lesson} (tokenParser : Bool)
    (hthreshold : threshold.isNaN = false)
    (hdefined : ∀ lesson ∈ first ++ later, lesson.IsDefined) :
    let k := (Knowledge.empty threshold tokenParser).learnAll first
    let k' := k.learnAll later
    (∀ key, ∀ r ∈ k.relationsOf key, Number.isUnit r.probability = true ∧
      ∃ r' ∈ k'.relationsOf key, r.KeptBy key r') ∧
    ∀ source target, target ≠ source → k.isDependent source target = true →
      k'.isDependent source target = true := by
  intro k k'
  obtain ⟨sound, -⟩ := Knowledge.grows_learnAll
    (fun lesson h => hdefined lesson (List.mem_append_left _ h))
    (Knowledge.sound_empty tokenParser hthreshold)
  obtain ⟨-, kept⟩ := Knowledge.grows_learnAll
    (fun lesson h => hdefined lesson (List.mem_append_right _ h)) sound
  refine ⟨fun key r hr => ⟨(sound.filed key r hr).isUnit, kept key r hr⟩, ?_⟩
  intro source target hne hdependent
  obtain ⟨r, hr, htarget⟩ := Knowledge.isDependent_iff.1 hdependent
  obtain ⟨r', hr', hkept⟩ := kept source r hr
  exact Knowledge.isDependent_iff.2 ⟨r', hr', hkept.targets target htarget hne⟩

namespace Sample

/-- One relation of carts to items. -/
def hint : List Lesson := [.dependency "/carts" (.ofList ["/items"]) "ADD" 0.5]

/-- Evidence against it, and a shared table whose members take it in. -/
def objection : List Lesson :=
  [.nonDependency "/carts" "/items",
    .shared (.ofList ["/carts", "/items", "/users"]) "stock" 0.25 true "table:stock"]

end Sample

open Sample in
theorem dependency_stays_after_merge :
    (0.6 : Float).isNaN = false ∧ (∀ lesson ∈ hint ++ objection, lesson.IsDefined) ∧
    (∃ r ∈ (((Knowledge.empty 0.6 true).learnAll hint).learnAll objection).relationsOf "/carts",
      0.5 ≤ r.probability ∧ "ADD" ∈ r.provenance) ∧
    (((Knowledge.empty 0.6 true).learnAll hint).learnAll objection).isDependent "/carts" "/items"
      = true := by
  have hdefined : ∀ lesson ∈ hint ++ objection, lesson.IsDefined := by decide
  obtain ⟨kept, dependent⟩ := learned_evidence_stays true
    (show (0.6 : Float).isNaN = false by decide) hdefined
  have learned : Relation.simple "/carts" (.ofList ["/items"]) 0.5 "ADD" ∈
      ((Knowledge.empty 0.6 true).learnAll hint).relationsOf "/carts" := by decide +kernel
  obtain ⟨-, r, hr, hkept⟩ := kept "/carts" _ learned
  refine ⟨by decide, hdefined, ⟨r, hr, hkept.probability, hkept.provenance _ ?_⟩, ?_⟩
  · exact List.mem_singleton_self _
  · exact dependent "/carts" "/items" (by decide) (by decide +kernel)

end RestScenario
