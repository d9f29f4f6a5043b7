import RestScenario.Action
import RestScenario.Proofs.Lists

/-!
# Values shared among equal names

**Sharing.** The first plain parameter of a name leads: the other plain parameters of the name and
the body fields of the name take its value. Parameters for which this is so are `Shared`. Sharing
makes them so, and leaves them alone when they are.

**Following.** An action that takes over path values from another one changes its path parameters
alone, so what leads stays in the lead. When values are shared afterwards, what was taken over is
either passed on to all parameters of the name or lost to one in front of it; either way there is
nothing more to take over (`shareValues_followPath_again`).
-/

namespace RestScenario

/-! ## Body fields -/

section Fields

variable {fields : List Field} {name other : String} {v w : Value}

/-- The first field of the name, if there is one, has the value. -/
def Carries (name : String) (v : Value) (fields : List Field) : Prop :=
  ∀ f ∈ fields.find? (·.name = name), f.value = v

theorem carries_setField : Carries name v (setField name v fields) := by
  induction fields with
  | nil => rintro _ ⟨⟩
  | cons f rest ih =>
    rw [setField]
    by_cases h : f.name = name
    · rw [if_pos h]
      simp [Carries, h]
    · rw [if_neg h]
      simpa [Carries, h] using ih

theorem Carries.setField_of_ne (h : Carries other w fields) (hne : name ≠ other) :
    Carries other w (setField name v fields) := by
  induction fields with
  | nil => exact h
  | cons f rest ih =>
    rw [setField]
    by_cases hname : f.name = name
    · rw [if_pos hname]
      have hother : f.name ≠ other := fun heq => hne (hname.symm.trans heq)
      simpa [Carries, hother] using h
    · rw [if_neg hname]
      by_cases hother : f.name = other
      · simpa [Carries, hother] using h
      · simp only [Carries, hother, List.find?_cons, decide_false] at h ⊢
        exact ih h

theorem setField_of_carries (h : Carries name v fields) : setField name v fields = fields := by
  induction fields with
  | nil => rfl
  | cons f rest ih =>
    rw [setField]
    by_cases hname : f.name = name
    · rw [if_pos hname]
      have hvalue : f.value = v := by simpa [Carries, hname] using h
      rw [← hvalue]
    · rw [if_neg hname, ih]
      simpa [Carries, hname] using h

/-- Fields take the values of parameters, one after another. -/
def takeValues (params : List Param) (fields : List Field) : List Field :=
  params.foldl (fun fields q => setField q.name q.value fields) fields

theorem takeValues_of_carries {params : List Param}
    (h : ∀ q ∈ params, Carries q.name q.value fields) : takeValues params fields = fields :=
  List.foldlRecOn (motive := (· = fields)) params _ rfl fun taken htaken q hq => by
    rw [htaken]
    exact setField_of_carries (h q hq)

/-- Where parameters of one name agree, the field of the name takes their value. -/
theorem carries_takeValues {params : List Param} {q : Param} (hq : q ∈ params)
    (h : ∀ r ∈ params, r.name = q.name → r.value = q.value) :
    Carries q.name q.value (takeValues params fields) := by
  obtain ⟨front, back, rfl⟩ := List.append_of_mem hq
  unfold takeValues
  rw [List.foldl_append, List.foldl_cons]
  refine List.foldlRecOn (motive := Carries q.name q.value) back _ carries_setField
    fun taken htaken r hr => ?_
  by_cases hname : r.name = q.name
  · rw [hname, h r (by simp [hr]) hname]
    exact carries_setField
  · exact htaken.setField_of_ne hname

end Fields

/-! ## What leads -/

namespace Param

variable {p : Param} {change : List Field → List Field}

theorem mapFields_of_plain (h : p.isBody = false) : p.mapFields change = p := by
  unfold mapFields
  unfold isBody at h
  split
  · rename_i hplace
    rw [hplace] at h
    cases h
  · rfl

theorem mapFields_of_fixed (h : change p.fields = p.fields) : p.mapFields change = p := by
  unfold mapFields
  split
  · rename_i refType fields hplace
    have hfields : p.fields = fields := by
      unfold Param.fields
      rw [hplace]
    rw [hfields] at h
    rw [h, ← hplace]
  · rfl

@[simp]
theorem name_mapFields : (p.mapFields change).name = p.name := by
  unfold mapFields
  split <;> rfl

@[simp]
theorem isBody_mapFields : (p.mapFields change).isBody = p.isBody := by
  unfold mapFields
  split
  · rename_i hplace
    simp [isBody, hplace]
  · rfl

@[simp]
theorem isPath_mapFields : (p.mapFields change).isPath = p.isPath := by
  unfold mapFields
  split
  · rename_i hplace
    simp [isPath, hplace]
  · rfl

theorem fields_of_plain (h : p.isBody = false) : p.fields = [] := by
  unfold isBody at h
  unfold Param.fields
  split
  · rename_i hplace
    rw [hplace] at h
    cases h
  · rfl

theorem fields_mapFields (h : p.isBody = true) : (p.mapFields change).fields = change p.fields := by
  unfold mapFields Param.fields
  unfold isBody at h
  split at h
  · rfl
  · cases h

@[simp]
theorem isPath_with_value {v : Value} : Param.isPath { p with value := v } = p.isPath := rfl

@[simp]
theorem isBody_with_value {v : Value} : Param.isBody { p with value := v } = p.isBody := rfl

theorem isBody_of_isPath (h : p.isPath = true) : p.isBody = false := by
  have hplace : p.place = .path := by simpa [isPath] using h
  simp [isBody, hplace]

end Param

namespace Action

variable {a other : Action} {params : List Param} {p first : Param} {name : String}

theorem plain_of_firstPlain? (h : firstPlain? params name = some first) :
    first.isBody = false ∧ first.name = name := by
  simpa using List.find?_some h

theorem exists_firstPlain? (hp : p ∈ params) (hplain : p.isBody = false) :
    ∃ first, firstPlain? params p.name = some first := by
  refine Option.isSome_iff_exists.1 (List.find?_isSome.2 ⟨p, hp, ?_⟩)
  simp [hplain]

/-- A change that leaves names and bodies as they are leaves the leading parameters in place. -/
theorem firstPlain?_map {change : Param → Param} (hname : ∀ p, (change p).name = p.name)
    (hbody : ∀ p, (change p).isBody = p.isBody) :
    firstPlain? (params.map change) name = (firstPlain? params name).map change := by
  unfold firstPlain?
  rw [List.find?_map]
  congr 2
  funext p
  simp [hname, hbody]

/-- A plain parameter with the value of the one that leads under its name. -/
def led (lead : String → Option Param) (p : Param) : Param :=
  if p.isBody then p else { p with value := ((lead p.name).map (·.value)).getD default }

theorem name_led {lead : String → Option Param} : (led lead p).name = p.name := by
  unfold led
  split <;> rfl

theorem isBody_led {lead : String → Option Param} : (led lead p).isBody = p.isBody := by
  unfold led
  split <;> rfl

theorem isPath_led {lead : String → Option Param} : (led lead p).isPath = p.isPath := by
  unfold led
  split <;> rfl

theorem led_of_plain {lead : String → Option Param} (hplain : p.isBody = false)
    (hfirst : lead p.name = some first) : led lead p = { p with value := first.value } := by
  simp [led, hplain, hfirst]

theorem sharePlain_eq : sharePlain params = params.map (led (firstPlain? params)) := by
  refine List.map_congr_left fun p hp => ?_
  cases hbody : p.isBody with
  | true => simp [led, hbody]
  | false =>
    obtain ⟨first, hfirst⟩ := exists_firstPlain? hp hbody
    rw [led_of_plain hbody hfirst, hfirst]
    rfl

theorem firstPlain?_sharePlain : firstPlain? (sharePlain params) name = firstPlain? params name := by
  rw [sharePlain_eq, firstPlain?_map (fun _ => name_led) (fun _ => isBody_led)]
  cases h : firstPlain? params name with
  | none => rfl
  | some first =>
    obtain ⟨hplain, rfl⟩ := plain_of_firstPlain? h
    rw [Option.map_some, led_of_plain hplain h]

theorem shareWithBodies_eq : shareWithBodies params =
    params.map fun p => p.mapFields (takeValues (params.filter fun p => !p.isBody)) := rfl

theorem firstPlain?_shareWithBodies :
    firstPlain? (shareWithBodies params) name = firstPlain? params name := by
  rw [shareWithBodies_eq,
    firstPlain?_map (fun _ => Param.name_mapFields) (fun _ => Param.isBody_mapFields)]
  cases h : firstPlain? params name with
  | none => rfl
  | some first =>
    rw [Option.map_some, Param.mapFields_of_plain (plain_of_firstPlain? h).1]

theorem firstPlain?_shareValues :
    firstPlain? a.shareValues.params name = firstPlain? a.params name :=
  firstPlain?_shareWithBodies.trans firstPlain?_sharePlain

/-! ## Sharing -/

/-- Plain parameters have the values of those that lead, and so have body fields. -/
structure Shared (params : List Param) : Prop where
  plain : ∀ p ∈ params, p.isBody = false →
    ∀ first, firstPlain? params p.name = some first → p.value = first.value
  bodies : ∀ p ∈ params, ∀ q ∈ params, q.isBody = false → Carries q.name q.value p.fields

theorem value_of_mem_sharePlain (hp : p ∈ sharePlain params) (hplain : p.isBody = false)
    (hfirst : firstPlain? params p.name = some first) : p.value = first.value := by
  rw [sharePlain_eq] at hp
  obtain ⟨q, -, rfl⟩ := List.mem_map.1 hp
  rw [isBody_led] at hplain
  rw [name_led] at hfirst
  rw [led_of_plain hplain hfirst]

/-- The value that leads under a name. -/
def leadValue? (params : List Param) (name : String) : Option Value :=
  (firstPlain? params name).map (·.value)

theorem leadValue?_of_mem_sharePlain (hp : p ∈ (sharePlain params).filter fun p => !p.isBody) :
    leadValue? params p.name = some p.value := by
  obtain ⟨hmem, hplain⟩ := List.mem_filter.1 hp
  rw [Bool.not_eq_true'] at hplain
  obtain ⟨first, hfirst⟩ := exists_firstPlain? hmem hplain
  rw [firstPlain?_sharePlain] at hfirst
  rw [leadValue?, hfirst, Option.map_some, value_of_mem_sharePlain hmem hplain hfirst]

theorem mem_of_mem_shareWithBodies (hp : p ∈ shareWithBodies params) (hplain : p.isBody = false) :
    p ∈ params := by
  rw [shareWithBodies_eq] at hp
  obtain ⟨q, hq, rfl⟩ := List.mem_map.1 hp
  rw [Param.isBody_mapFields] at hplain
  rwa [Param.mapFields_of_plain hplain]

theorem shared_shareValues : Shared a.shareValues.params where
  plain := by
    intro p hp hplain first hfirst
    rw [firstPlain?_shareValues] at hfirst
    exact value_of_mem_sharePlain (mem_of_mem_shareWithBodies hp hplain) hplain hfirst
  bodies := by
    intro p hp q hq hplain
    have hq : q ∈ (sharePlain a.params).filter fun p => !p.isBody :=
      List.mem_filter.2 ⟨mem_of_mem_shareWithBodies hq hplain, by simp [hplain]⟩
    have agree : ∀ r ∈ (sharePlain a.params).filter fun p => !p.isBody, r.name = q.name →
        r.value = q.value := by
      intro r hr hname
      have hlead := leadValue?_of_mem_sharePlain hr
      rw [hname, leadValue?_of_mem_sharePlain hq] at hlead
      exact (Option.some.inj hlead).symm
    obtain ⟨body, -, rfl⟩ := List.mem_map.1 hp
    cases hbody : body.isBody with
    | false =>
      rw [Param.fields_of_plain (Param.isBody_mapFields.trans hbody)]
      rintro _ ⟨⟩
    | true =>
      rw [Param.fields_mapFields hbody]
      exact carries_takeValues hq agree

theorem shareValues_of_shared (h : Shared a.params) : a.shareValues = a := by
  have hplain : sharePlain a.params = a.params := by
    rw [sharePlain_eq, map_eq_self_iff]
    intro p hp
    cases hbody : p.isBody with
    | true => simp [led, hbody]
    | false =>
      obtain ⟨first, hfirst⟩ := exists_firstPlain? hp hbody
      rw [led_of_plain hbody hfirst, ← h.plain p hp hbody first hfirst]
  have hbodies : shareWithBodies a.params = a.params := by
    rw [shareWithBodies_eq, map_eq_self_iff]
    intro p hp
    refine Param.mapFields_of_fixed (takeValues_of_carries fun q hq => ?_)
    obtain ⟨hq, hqplain⟩ := List.mem_filter.1 hq
    exact h.bodies p hp q hq (by simpa using hqplain)
  unfold shareValues
  rw [hplain, hbodies]

/-- **Sharing is idempotent.** -/
theorem shareValues_shareValues : a.shareValues.shareValues = a.shareValues :=
  shareValues_of_shared shared_shareValues

/-! ## Following -/

/-- The path values that an action takes over from another one, under its own names. -/
def takenFrom (a other : Action) : List (String × Value) :=
  (sharedVariables a.path other.path).filterMap fun (mine, theirs) =>
    (pathValue? other.params theirs).map (mine, ·)

/-- Gives path parameters values, one after another. -/
def setPathValues (taken : List (String × Value)) (params : List Param) : List Param :=
  taken.foldl (fun params e => setPathValue e.1 e.2 params) params

theorem followPath_eq : a.followPath other =
    { a with params := setPathValues (a.takenFrom other) a.params } := by
  unfold followPath setPathValues takenFrom
  rw [List.foldl_filterMap]
  congr 2
  funext params e
  obtain ⟨mine, theirs⟩ := e
  dsimp only
  cases pathValue? other.params theirs <;> rfl

variable {taken : List (String × Value)} {v : Value}

/-- A search under a name that finds path parameters of the name, whatever their values. -/
structure SearchesName (name : String) (test : Param → Bool) : Prop where
  name_eq : ∀ p, test p = true → p.name = name
  path : ∀ p, p.isPath = true → p.name = name → test p = true
  value : ∀ (p : Param) (v : Value), test { p with value := v } = test p

variable {test : Param → Bool}

theorem find?_setPathValue {set : String} (htest : SearchesName name test) :
    (setPathValue set v params).find? test = (params.find? test).map fun p =>
      if p.isPath = true ∧ set = name then { p with value := v } else p := by
  induction params with
  | nil => rfl
  | cons p rest ih =>
    rw [setPathValue]
    by_cases hset : (p.isPath && p.name = set) = true
    · obtain ⟨hpath, rfl⟩ : p.isPath = true ∧ p.name = set := by simpa using hset
      rw [if_pos hset, List.find?_cons, List.find?_cons, htest.value]
      by_cases hname : p.name = name
      · simp [htest.path p hpath hname, hpath, hname]
      · have hother : test p = false := Bool.eq_false_iff.2 fun h => hname (htest.name_eq p h)
        simp [hother, hname]
    · rw [if_neg hset, List.find?_cons, List.find?_cons, ih]
      by_cases hfound : test p = true
      · obtain rfl := htest.name_eq p hfound
        have hother : ¬ (p.isPath = true ∧ set = p.name) := by
          rintro ⟨hpath, rfl⟩
          simp [hpath] at hset
        simp [hfound, hother]
      · simp [hfound]

/-- What becomes of the parameter that leads under a name: in the path it takes the value that is set
last. -/
def taking (taken : List (String × Value)) (name : String) (p : Param) : Param :=
  if p.isPath then { p with value := (taken.reverse.lookup name).getD p.value } else p

theorem taking_cons {set : String} : taking ((set, v) :: taken) name p =
    taking taken name (if p.isPath = true ∧ set = name then { p with value := v } else p) := by
  have hlast : ([(set, v)] : List (String × Value)).lookup name =
      if set = name then some v else none := by
    by_cases h : set = name
    · simp [h]
    · have hne : (name == set) = false := by simpa using fun heq => h heq.symm
      simp [List.lookup_cons, h, hne]
  unfold taking
  rw [List.reverse_cons, List.lookup_append, hlast]
  by_cases hpath : p.isPath = true
  · by_cases h : set = name
    · simp only [hpath, h, and_self, if_true, Param.isPath_with_value]
      cases taken.reverse.lookup name <;> rfl
    · simp [hpath, h]
  · simp [hpath]

theorem taking_taking : taking taken name (taking taken name p) = taking taken name p := by
  unfold taking
  by_cases hpath : p.isPath = true
  · simp only [hpath, if_true, Param.isPath_with_value]
    cases taken.reverse.lookup name <;> rfl
  · simp [hpath]

theorem find?_setPathValues (htest : SearchesName name test) :
    (setPathValues taken params).find? test = (params.find? test).map (taking taken name) := by
  induction taken generalizing params with
  | nil =>
    have unchanged : taking [] name = id := by
      funext p
      simp [taking]
    rw [unchanged, Option.map_id]
    rfl
  | cons e rest ih =>
    obtain ⟨set, v⟩ := e
    have step : taking ((set, v) :: rest) name = taking rest name ∘ fun p =>
        if p.isPath = true ∧ set = name then { p with value := v } else p :=
      funext fun p => taking_cons
    rw [step, ← Option.map_map, ← find?_setPathValue htest]
    exact ih

theorem firstPlain?_setPathValues : firstPlain? (setPathValues taken params) name =
    (firstPlain? params name).map (taking taken name) := by
  refine find?_setPathValues ⟨fun p hp => ?_, fun p hpath hname => ?_, fun p v => rfl⟩
  · simp only [Bool.and_eq_true, decide_eq_true_eq] at hp
    exact hp.2
  · simp [Param.isBody_of_isPath hpath, hname]

/-- The value that is set last under a name is the one that the path has then. -/
theorem pathValue?_setPathValues : pathValue? (setPathValues taken params) name =
    (pathValue? params name).map fun v => (taken.reverse.lookup name).getD v := by
  have hsearch : SearchesName name fun p => p.isPath && p.name = name := by
    refine ⟨fun p hp => ?_, fun p hpath hname => ?_, fun p v => rfl⟩
    · simp only [Bool.and_eq_true, decide_eq_true_eq] at hp
      exact hp.2
    · simp [hpath, hname]
  unfold pathValue?
  rw [find?_setPathValues hsearch, Option.map_map, Option.map_map]
  refine Option.map_congr fun p hp => ?_
  obtain ⟨hpath, -⟩ : p.isPath = true ∧ p.name = name := by simpa using List.find?_some hp
  simp [taking, hpath]

theorem pathValue?_followPath : pathValue? (a.followPath other).params name =
    (pathValue? a.params name).map fun v => ((a.takenFrom other).reverse.lookup name).getD v := by
  rw [followPath_eq]
  exact pathValue?_setPathValues

/-- Setting path values shows only in the values of path parameters. -/
theorem map_setPathValues {β : Type} {f : Param → β}
    (hf : ∀ p v, p.isPath = true → f { p with value := v } = f p) :
    (setPathValues taken params).map f = params.map f := by
  have step : ∀ (e : String × Value) (params : List Param),
      (setPathValue e.1 e.2 params).map f = params.map f := by
    intro e params
    induction params with
    | nil => rfl
    | cons p rest ih =>
      rw [setPathValue]
      split
      · rename_i hset
        rw [List.map_cons, List.map_cons, hf p e.2 (by simp at hset; exact hset.1)]
      · rw [List.map_cons, List.map_cons, ih]
  induction taken generalizing params with
  | nil => rfl
  | cons e rest ih => exact ih.trans (step e params)

/-- Where path values change nothing of what leads, they are lost in the sharing. -/
theorem sharePlain_setPathValues
    (h : ∀ name, firstPlain? (setPathValues taken params) name = firstPlain? params name) :
    sharePlain (setPathValues taken params) = sharePlain params := by
  rw [sharePlain_eq, sharePlain_eq, funext h]
  exact map_setPathValues fun p v hpath => by simp [led, Param.isBody_of_isPath hpath]

/-- **Following again changes nothing**, once values were shared after following. -/
theorem shareValues_followPath_again :
    ((a.followPath other).shareValues.followPath other).shareValues =
      (a.followPath other).shareValues := by
  generalize hy : (a.followPath other).shareValues = y
  have hpath : y.path = a.path := by rw [← hy]; rfl
  have htaken : y.takenFrom other = a.takenFrom other := by
    unfold takenFrom
    rw [hpath]
  have hlead : ∀ name, firstPlain? (setPathValues (a.takenFrom other) y.params) name =
      firstPlain? y.params name := by
    intro name
    have once : firstPlain? y.params name =
        (firstPlain? a.params name).map (taking (a.takenFrom other) name) := by
      rw [← hy, firstPlain?_shareValues, followPath_eq, firstPlain?_setPathValues]
    rw [firstPlain?_setPathValues, once, Option.map_map]
    congr 1
    funext p
    exact taking_taking
  have hshared : y.shareValues = y := by rw [← hy, shareValues_shareValues]
  calc (y.followPath other).shareValues
      = { y with params :=
          shareWithBodies (sharePlain (setPathValues (a.takenFrom other) y.params)) } := by
        rw [followPath_eq, htaken]
        rfl
    _ = y.shareValues := by
        rw [sharePlain_setPathValues hlead]
        rfl
    _ = y := hshared

/-! ## Settled paths -/

/-- Every path parameter has the value of the one that leads under its name. -/
def PathSettled (a : Action) : Prop :=
  ∀ p ∈ a.params, p.isPath = true →
    ∀ first, firstPlain? a.params p.name = some first → first.value = p.value

/-- Sharing leaves the path parameters of an action alone exactly when its path is settled. -/
theorem filter_isPath_shareValues_iff :
    a.shareValues.params.filter Param.isPath = a.params.filter Param.isPath ↔ a.PathSettled := by
  constructor
  · intro h p hp hpath first hfirst
    have hkept : p ∈ a.shareValues.params.filter Param.isPath :=
      h ▸ List.mem_filter.2 ⟨hp, hpath⟩
    rw [← firstPlain?_shareValues] at hfirst
    exact (shared_shareValues.plain p (List.mem_filter.1 hkept).1 (Param.isBody_of_isPath hpath)
      first hfirst).symm
  · intro h
    show (shareWithBodies (sharePlain a.params)).filter Param.isPath = _
    rw [shareWithBodies_eq, filter_map_eq_self (fun _ => Param.isPath_mapFields)
      fun p _ hpath => Param.mapFields_of_plain (Param.isBody_of_isPath hpath), sharePlain_eq]
    refine filter_map_eq_self (fun _ => isPath_led) fun p hp hpath => ?_
    have hplain := Param.isBody_of_isPath hpath
    obtain ⟨first, hfirst⟩ := exists_firstPlain? hp hplain
    rw [led_of_plain hplain hfirst, h p hp hpath first hfirst]

theorem pathSettled_shareValues : a.shareValues.PathSettled := by
  rw [← filter_isPath_shareValues_iff, shareValues_shareValues]

theorem pathValue?_eq : pathValue? params name =
    ((params.filter Param.isPath).find? fun p => p.name = name).map (·.value) := by
  rw [List.find?_filter]
  unfold pathValue?
  simp

theorem pathValue?_congr {params' : List Param}
    (h : params'.filter Param.isPath = params.filter Param.isPath) :
    pathValue? params' name = pathValue? params name := by
  rw [pathValue?_eq, pathValue?_eq, h]

/-- What is taken over from an action depends on its path values alone. -/
theorem followPath_congr {other' : Action} (hpath : other'.path = other.path)
    (hvalue : ∀ name, pathValue? other'.params name = pathValue? other.params name) :
    a.followPath other' = a.followPath other := by
  rw [followPath_eq, followPath_eq]
  unfold takenFrom
  simp only [hpath, hvalue]

end Action

end RestScenario
