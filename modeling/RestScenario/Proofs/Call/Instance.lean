import RestScenario.Proofs.Action.Paths
import RestScenario.Proofs.Scenario.Repair

/-!
# The instance that a call addresses

A call records the instance that its target addresses, and a realignment gives the path values of
the target to the other actions. Wherever path values lead under their names, the record, the target
and the other actions agree afterwards (`realigned_calls_address_one_instance`): an action has the values
of the target along the elements on which their paths agree.

Where a query or header parameter leads with another value, they need not. The realignment takes the
target as it is before it shares its own values, so the record may keep a value that the target gives up
(`record_differs_from_target`).
-/

namespace RestScenario

/-! ## Where two paths agree -/

namespace PathTemplate

variable {p q : PathTemplate} {x y y' : String} {n m : Nat} {e f : Element}

theorem level_unique (h : p.variableNames.Nodup) (hn : p.elements[n]? = some (.var x))
    (hm : p.elements[m]? = some (.var x)) : n = m := by
  unfold variableNames at h
  rw [List.Nodup, List.pairwise_filterMap, List.pairwise_iff_getElem] at h
  obtain ⟨hn, hxn⟩ := List.getElem?_eq_some_iff.1 hn
  obtain ⟨hm, hxm⟩ := List.getElem?_eq_some_iff.1 hm
  rcases Nat.lt_trichotomy n m with hlt | heq | hlt
  · exact absurd rfl (h n m hn hm hlt x (by simp [hxn]) x (by simp [hxm]))
  · exact heq
  · exact absurd rfl (h m n hm hn hlt x (by simp [hxm]) x (by simp [hxn]))

/-- The elements on which two templates agree from the start, pair by pair. -/
def matching (p q : PathTemplate) : List (Element × Element) :=
  (p.elements.zip q.elements).takeWhile fun (e, f) => e.agrees f

/-- The number of elements on which two templates agree from the start. -/
def commonLevels (p q : PathTemplate) : Nat := (p.matching q).length

theorem getElem?_matching : (p.matching q)[n]? = some (e, f) ↔
    n < p.commonLevels q ∧ p.elements[n]? = some e ∧ q.elements[n]? = some f := by
  obtain ⟨rest, hrest⟩ : p.matching q <+: p.elements.zip q.elements := List.takeWhile_prefix _
  have hlevel : p.elements[n]? = some e ∧ q.elements[n]? = some f ↔
      (p.matching q ++ rest)[n]? = some (e, f) := by
    rw [hrest, List.getElem?_zip_eq_some]
  rw [hlevel]
  by_cases hn : n < p.commonLevels q
  · rw [List.getElem?_append_left hn]
    simp [hn]
  · rw [List.getElem?_eq_none (Nat.not_lt.1 hn)]
    simp [hn]

end PathTemplate

namespace Action

variable {a t : Action} {p q : PathTemplate} {x y : String} {n : Nat}

theorem mem_sharedVariables
    (hagree : ∀ e ∈ (p.elements.zip q.elements).take n, e.1.agrees e.2 = true)
    (hx : p.elements[n]? = some (.var x)) (hy : q.elements[n]? = some (.var y)) :
    (x, y) ∈ sharedVariables p q := by
  have hlevel : (p.elements.zip q.elements)[n]? = some (.var x, .var y) := by
    simp [List.getElem?_zip_eq_some, hx, hy]
  refine List.mem_filterMap.2 ⟨_, mem_takeWhile_of_take hagree hlevel rfl, rfl⟩

theorem mem_sharedVariables_iff : (x, y) ∈ sharedVariables p q ↔ ∃ n < p.commonLevels q,
    p.elements[n]? = some (.var x) ∧ q.elements[n]? = some (.var y) := by
  have hshared : (x, y) ∈ sharedVariables p q ↔ (.var x, .var y) ∈ p.matching q := by
    show _ ∈ (p.matching q).filterMap _ ↔ _
    rw [List.mem_filterMap]
    constructor
    · rintro ⟨⟨e, f⟩, hmem, heq⟩
      cases e <;> cases f <;> simp_all
    · intro hmem
      exact ⟨_, hmem, rfl⟩
  rw [hshared, List.mem_iff_getElem?]
  exact exists_congr fun n => PathTemplate.getElem?_matching

/-- An action with distinct variables takes over one value for each. -/
theorem lookup_takenFrom {w : Value} (hdistinct : a.path.variableNames.Nodup)
    (hagree : ∀ e ∈ (a.path.elements.zip t.path.elements).take n, e.1.agrees e.2 = true)
    (hx : a.path.elements[n]? = some (.var x)) (hy : t.path.elements[n]? = some (.var y))
    (hw : pathValue? t.params y = some w) : (a.takenFrom t).reverse.lookup x = some w := by
  refine lookup_eq_some_of_mem (List.mem_reverse.2 ?_) fun v hv => ?_
  · exact List.mem_filterMap.2 ⟨(x, y), mem_sharedVariables hagree hx hy, by simp [hw]⟩
  · obtain ⟨⟨mine, theirs⟩, hmem, heq⟩ := List.mem_filterMap.1 (List.mem_reverse.1 hv)
    obtain ⟨u, hu, heq⟩ := Option.map_eq_some_iff.1 heq
    obtain ⟨rfl, rfl⟩ : mine = x ∧ u = v := by simpa using heq
    obtain ⟨m, -, hm, hm'⟩ := mem_sharedVariables_iff.1 hmem
    obtain rfl := PathTemplate.level_unique hdistinct hm hx
    obtain rfl : y = theirs := by simpa [hy] using hm'
    exact Option.some.inj (hu.symm.trans hw)

/-! ## One instance -/

/-- Wherever the path of an action runs along that of another one up to a variable in both, their
path parameters have one value there. -/
def IsAlong (a t : Action) : Prop :=
  a.path.variableNames.Nodup → ∀ (n : Nat) (x y : String),
    (∀ e ∈ (a.path.elements.zip t.path.elements).take n, e.1.agrees e.2 = true) →
    a.path.elements[n]? = some (.var x) → t.path.elements[n]? = some (.var y) →
    ∀ v ∈ pathValue? a.params x, ∀ w ∈ pathValue? t.params y, v = w

theorem isAlong_refl : a.IsAlong a := by
  intro _ n x y _ hx hy v hv w hw
  obtain rfl : x = y := by simpa [hx] using hy
  exact Option.some.inj (hv.symm.trans hw)

theorem isAlong_followPath (ha : (a.followPath t).PathValuesLead) (ht : t.PathValuesLead) :
    (a.followPath t).shareValues.IsAlong t.shareValues := by
  intro hdistinct n x y hagree hx hy v hv w hw
  rw [Option.mem_def, ht.pathValue?_shareValues] at hw
  have htaken : (a.takenFrom t).reverse.lookup x = some w :=
    lookup_takenFrom hdistinct hagree hx hy hw
  rw [Option.mem_def, ha.pathValue?_shareValues, pathValue?_followPath, htaken] at hv
  obtain ⟨own, -, rfl⟩ := Option.map_eq_some_iff.1 hv
  rfl

theorem resolvedPath_shareValues (ha : a.PathValuesLead) :
    a.shareValues.resolvedPath = a.resolvedPath := by
  have hvalues : pathValue? a.shareValues.params = pathValue? a.params :=
    funext fun _ => ha.pathValue?_shareValues
  show a.path.resolve (pathValue? a.shareValues.params) = _
  rw [hvalues]
  rfl

end Action

/-- An action that is taken for an instance resolves to the key of that instance. -/
theorem Subject.key_ofAction {resource : String} {a : Action} :
    (Subject.ofAction resource a).key = a.resolvedPath := by
  have hvalues : pathValue? (a.params.filter Param.isPath) = pathValue? a.params :=
    funext fun _ => Action.pathValue?_congr (by simp [List.filter_filter])
  show a.path.resolve (pathValue? (a.params.filter Param.isPath)) = _
  rw [hvalues]
  rfl

namespace Call

variable {c d : Call} {front : List Action}

/-! ### Labels of calls -/

/-- The labels of the parameters, action by action. -/
def labels (c : Call) : List (List (String × Bool × Bool)) := c.actions.map Action.labels

/-- Path parameters lead under their names in all actions. -/
def PathsLead (c : Call) : Prop := ∀ a ∈ c.actions, a.PathsLead

instance : DecidablePred PathsLead := fun c =>
  inferInstanceAs (Decidable (∀ a ∈ c.actions, a.PathsLead))

theorem PathsLead.of_labels (hc : c.PathsLead) (h : d.labels = c.labels) : d.PathsLead := by
  intro b hb
  have hlabels : b.labels ∈ c.labels := h ▸ List.mem_map_of_mem hb
  obtain ⟨a, ha, hab⟩ := List.mem_map.1 hlabels
  exact (hc a ha).of_labels hab.symm

theorem labels_followAll {a : Action} : (followAll front a).labels = a.labels :=
  Action.labels_of_blank (blank_followAll a)

/-- What leaves the form of a call leaves its labels. -/
theorem labels_of_form (h : d.form = c.form) : d.labels = c.labels := by
  have labels_blank : ∀ c : Call, (c.actions.map Action.blank).map Action.labels = c.labels := by
    intro c
    rw [List.map_map]
    exact List.map_congr_left fun a _ => Action.labels_of_blank Action.blank_blank
  rw [← labels_blank, ← labels_blank]
  exact congrArg (fun form => form.2.2.map Action.labels) h

theorem labels_realign : c.realign.labels = c.labels := labels_of_form form_realign

/-! ### Target and record -/

/-- The call has a target, records the instance that the target addresses, and has the path values of
the target in all its actions. -/
def OneInstance (c : Call) : Prop :=
  ∃ target ∈ c.target?, c.instanceKey = target.resolvedPath ∧ ∀ a ∈ c.actions, a.IsAlong target

theorem exists_target (h : c.actions ≠ []) : ∃ i target,
    c.targetIndex? = some i ∧ c.actions[i]? = some target := by
  obtain ⟨a, ha, hlongest⟩ := exists_eq_foldl_max (fun a : Action => a.path.levels) h
  obtain ⟨i, hi⟩ : ∃ i, c.targetIndex? = some i := by
    refine Option.isSome_iff_exists.1 (List.findIdx?_isSome.trans (List.any_eq_true.2 ⟨a, ha, ?_⟩))
    exact decide_eq_true hlongest
  obtain ⟨hlt, -⟩ := List.findIdx?_eq_some_iff_getElem.1 hi
  exact ⟨i, c.actions[i], hi, List.getElem?_eq_getElem hlt⟩

/-- Path values lead in the target, and in each action once it has the path values of the target. -/
def PathValuesLead (c : Call) : Prop :=
  ∀ target ∈ c.target?, target.PathValuesLead ∧
    ∀ a ∈ c.actions, (a.followPath target).PathValuesLead

instance : DecidablePred PathValuesLead := fun c =>
  inferInstanceAs (Decidable (∀ target, c.target? = some target → target.PathValuesLead ∧
    ∀ a ∈ c.actions, (a.followPath target).PathValuesLead))

theorem PathsLead.pathValuesLead (h : c.PathsLead) : c.PathValuesLead := by
  intro target htarget
  obtain ⟨i, -, ht⟩ := Option.bind_eq_some_iff.1 htarget
  exact ⟨(h target (List.mem_of_getElem? ht)).pathValuesLead, fun a ha =>
    ((h a ha).of_labels Action.labels_followPath).pathValuesLead⟩

theorem oneInstance_realign (h : c.actions ≠ []) (hlead : c.PathValuesLead) :
    c.realign.OneInstance := by
  obtain ⟨i, target, hi, ht⟩ := exists_target h
  obtain ⟨htarget, hothers⟩ := hlead target (by simp [target?, hi, ht])
  refine ⟨target.shareValues, ?_, ?_, fun a ha => ?_⟩
  · rw [target?_realign]
    simp [target?, hi, ht]
  · rw [Action.resolvedPath_shareValues htarget, realign_eq hi ht]
    exact Subject.key_ofAction
  · rw [realign_eq hi ht] at ha
    obtain ⟨j, hj, rfl⟩ := List.mem_mapIdx.1 ha
    split
    · rename_i hij
      subst hij
      obtain rfl : c.actions[j] = target := by simpa [hj] using ht
      exact Action.isAlong_refl
    · exact Action.isAlong_followPath (hothers _ (List.getElem_mem hj)) htarget

end Call

/-- **A realigned call addresses one instance**, where its path values lead: the recorded instance is the
one that its target addresses, and the other actions have the path values of the target. So it is
whatever the values are where path parameters lead in its actions, and then a call that took over values
from others is realigned and addresses one instance, too. -/
theorem realigned_calls_address_one_instance {c : Call} (h : c.actions ≠ []) :
    (c.PathValuesLead → c.realign.OneInstance) ∧
      (c.PathsLead → c.realign.OneInstance ∧ ∀ front, (c.bindWith front).OneInstance) := by
  refine ⟨Call.oneInstance_realign h, fun hlead => ?_⟩
  refine ⟨Call.oneInstance_realign h hlead.pathValuesLead, fun front => ?_⟩
  have bound : Call.labels { c with actions := c.actions.map (Call.followAll front) } =
      c.labels := by
    unfold Call.labels
    rw [List.map_map]
    exact List.map_congr_left fun a _ => Call.labels_followAll
  exact Call.oneInstance_realign (by simpa using h) (hlead.of_labels bound).pathValuesLead

namespace Sample

/-- Reading a user. -/
def readUser (params : List Param) : Action :=
  ⟨.get, ⟨[.literal "users", .var "id"]⟩, params, false, none, none⟩

/-- A user is read and user 3 is deleted. -/
def readThenDelete (params : List Param) : Call :=
  .unseeded (.unvisited "GET-DELETE" true 1) (.ofAction "/users/\x7bid\x7d" deleteUser)
    [readUser params, deleteUser] .notExisting

end Sample

open Sample in
/-- Alone, a path parameter leads. Behind a query parameter of the same value its value does. -/
theorem reading_and_deletion_address_one_user :
    ((readThenDelete [numbered .path 2]).actions ≠ [] ∧
        (readThenDelete [numbered .path 2]).PathsLead) ∧
      (readThenDelete [numbered .path 2]).realign.OneInstance ∧
      (∀ front, ((readThenDelete [numbered .path 2]).bindWith front).OneInstance) ∧
      ¬ (readThenDelete [numbered .query 2, numbered .path 2]).PathsLead ∧
      (readThenDelete [numbered .query 2, numbered .path 2]).realign.OneInstance := by
  obtain ⟨aligned, bound⟩ := (realigned_calls_address_one_instance
    (c := readThenDelete [numbered .path 2]) (by decide)).2 (by decide)
  have led : (readThenDelete [numbered .query 2, numbered .path 2]).PathValuesLead := by
    decide
  exact ⟨by decide, aligned, bound, by decide,
    (realigned_calls_address_one_instance (by decide)).1 led⟩

open Sample in
/-- A query parameter leads: user 1 is read, user 2 is deleted, and user 2 is on record. -/
theorem record_differs_from_target :
    (readThenDelete [numbered .query 1, numbered .path 2]).actions ≠ [] ∧
      (readThenDelete [numbered .query 1, numbered .path 2]).realign.actions.map
        Action.resolvedPath = ["/users/1", "/users/2"] ∧
      (readThenDelete [numbered .query 1, numbered .path 2]).realign.instanceKey = "/users/2" ∧
      ¬ (readThenDelete [numbered .query 1, numbered .path 2]).realign.OneInstance := by
  have target : ∀ t ∈ (readThenDelete [numbered .query 1, numbered .path 2]).realign.target?,
      (readThenDelete [numbered .query 1, numbered .path 2]).realign.instanceKey ≠
        t.resolvedPath := by
    decide +kernel
  refine ⟨by decide, by decide +kernel, by decide +kernel, ?_⟩
  rintro ⟨t, ht, hrecord, -⟩
  exact target t ht hrecord

end RestScenario
