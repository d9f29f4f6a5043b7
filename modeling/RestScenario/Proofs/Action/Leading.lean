import RestScenario.Proofs.Action.Sharing

/-!
# Sharing, parameter by parameter

**Fields.** Fields take values under names, one after another (`getElem?_takeValues`). Where there is one
value for each name, the order does not matter: the first field of a name has the value of the name at
the end, and all other fields are as they were.

**Parameters.** Sharing walks through the parameters and gives each the value of the one that it finds in
front. What it finds may have been changed on the way, but never the one that leads, so the walk gives
what is found among the parameters as they were before (`shareAlong_eq_sharePlain`).

Together they say what sharing makes of each parameter and what it leaves alone
(`shareValues_takes_leads`).
-/

namespace RestScenario

/-! ## Fields -/

section Fields

variable {fields : List Field} {name : String} {v : Value} {j : Nat} {f : Field}

/-- No field in front of a position has the name. -/
def NoneBefore (name : String) (fields : List Field) (j : Nat) : Prop :=
  ∀ g ∈ fields.take j, g.name ≠ name

instance : Decidable (NoneBefore name fields j) := List.decidableBAll ..

@[simp]
theorem noneBefore_zero : NoneBefore name fields 0 := by simp [NoneBefore]

@[simp]
theorem noneBefore_cons_succ :
    NoneBefore name (f :: fields) (j + 1) ↔ f.name ≠ name ∧ NoneBefore name fields j := by
  simp [NoneBefore]

theorem getElem?_setField : (setField name v fields)[j]? = fields[j]?.map fun f =>
    if f.name = name ∧ NoneBefore name fields j then { f with value := v } else f := by
  induction fields generalizing j with
  | nil => rfl
  | cons first rest ih =>
    rw [setField]
    by_cases h : first.name = name
    · rw [if_pos h]
      cases j <;> simp [h]
    · rw [if_neg h]
      cases j <;> simp [h, ih]

/-- The names of the fields, and so which are the first of their names, stay. -/
theorem noneBefore_setField {other : String} :
    NoneBefore other (setField name v fields) j ↔ NoneBefore other fields j := by
  induction fields generalizing j with
  | nil => exact Iff.rfl
  | cons first rest ih =>
    rw [setField]
    split
    · cases j <;> simp
    · cases j <;> simp [ih]

@[simp]
theorem length_setField : (setField name v fields).length = fields.length := by
  induction fields with
  | nil => rfl
  | cons f rest ih =>
    rw [setField]
    split
    · rfl
    · simp [ih]

theorem length_takeValues {params : List Param} : (takeValues params fields).length = fields.length :=
  List.foldlRecOn (motive := fun taken : List Field => taken.length = fields.length) params _ rfl
    fun _ htaken _ _ => length_setField.trans htaken

/-- **Where there is one value for each name, the first field of a name takes it**, and no other field
changes. -/
theorem getElem?_takeValues {lead : String → Option Value} {params : List Param}
    (hlead : ∀ q ∈ params, lead q.name = some q.value) :
    (takeValues params fields)[j]? = fields[j]?.map fun f =>
      if (∃ q ∈ params, q.name = f.name) ∧ NoneBefore f.name fields j
      then { f with value := (lead f.name).getD f.value } else f := by
  induction params generalizing fields with
  | nil => simp [takeValues]
  | cons q rest ih =>
    obtain ⟨hq, hrest⟩ := List.forall_mem_cons.1 hlead
    show (takeValues rest (setField q.name q.value fields))[j]? = _
    rw [ih hrest, getElem?_setField, Option.map_map]
    refine Option.map_congr fun f _ => ?_
    simp only [Function.comp_apply, noneBefore_setField, List.exists_mem_cons_iff]
    by_cases hfirst : NoneBefore f.name fields j
    · by_cases hname : f.name = q.name
      · simp [hname, hname ▸ hfirst, hq]
      · simp [hname, Ne.symm hname]
    · have hother : ¬ (f.name = q.name ∧ NoneBefore q.name fields j) := by
        rintro ⟨hname, h⟩
        exact hfirst (hname ▸ h)
      simp [hother, hfirst]

end Fields

namespace Action

variable {params qs : List Param} {p : Param}

/-! ## The walk -/

/-- A parameter after those in front of it: a plain one takes the value of the first of its name. -/
def afterFront (front : List Param) (p : Param) : Param :=
  if p.isBody then p
  else
    match firstPlain? front p.name with
    | some first => { p with value := first.value }
    | none => p

/-- Walks through parameters and changes each on the way, after those that are done. -/
def shareAlong (done : List Param) : List Param → List Param
  | [] => done
  | p :: rest => shareAlong (done ++ [afterFront done p]) rest

theorem afterFront_sharePlain : afterFront (sharePlain params) p = afterFront params p := by
  simp only [afterFront, firstPlain?_sharePlain]

/-- Parameters further back do not lead where there is one in front, and the first of its name leads
itself. -/
theorem afterFront_append (hp : p ∈ params) : afterFront (params ++ qs) p = afterFront params p := by
  unfold afterFront
  cases hbody : p.isBody with
  | true => rfl
  | false =>
    obtain ⟨first, hfirst⟩ := exists_firstPlain? hp hbody
    have happend : firstPlain? (params ++ qs) p.name = some first := by
      rw [firstPlain?, List.find?_append, ← firstPlain?, hfirst, Option.some_or]
    rw [hfirst, happend]

theorem afterFront_append_self : afterFront (params ++ [p]) p = afterFront params p := by
  unfold afterFront
  cases hbody : p.isBody with
  | true => rfl
  | false =>
    have happend : firstPlain? (params ++ [p]) p.name = (firstPlain? params p.name).or (some p) := by
      simp [firstPlain?, hbody]
    rw [happend]
    cases firstPlain? params p.name <;> rfl

/-- One step of the walk: behind shared parameters, the next one is shared with them. -/
theorem sharePlain_append_singleton :
    sharePlain (params ++ [p]) = sharePlain params ++ [afterFront (sharePlain params) p] := by
  have hfront : params.map (afterFront (params ++ [p])) = sharePlain params :=
    List.map_congr_left fun q hq => afterFront_append hq
  calc sharePlain (params ++ [p]) = (params ++ [p]).map (afterFront (params ++ [p])) := rfl
    _ = sharePlain params ++ [afterFront params p] := by
      rw [List.map_append, hfront, List.map_singleton, afterFront_append_self]
    _ = sharePlain params ++ [afterFront (sharePlain params) p] := by rw [afterFront_sharePlain]

/-- **The walk shares values**, although it reads what it has changed. -/
theorem shareAlong_eq_sharePlain : shareAlong [] params = sharePlain params := by
  have along : ∀ rest done, shareAlong (sharePlain done) rest = sharePlain (done ++ rest) := by
    intro rest
    induction rest with
    | nil =>
      intro done
      rw [shareAlong, List.append_nil]
    | cons p rest ih =>
      intro done
      rw [shareAlong, ← sharePlain_append_singleton, ih, List.append_assoc, List.singleton_append]
  exact along params []

/-! ## Each parameter -/

/-- Fields of a body and what becomes of them: the first field of a name takes the value of the
parameter that leads under it, and all others stay. -/
structure FieldsTakeLeads (params : List Param) (fields fields' : List Field) : Prop where
  length : fields'.length = fields.length
  takes : ∀ (j : Nat) (f : Field) (first : Param), fields[j]? = some f → NoneBefore f.name fields j →
    firstPlain? params f.name = some first → fields'[j]? = some { f with value := first.value }
  stays : ∀ (j : Nat) (f : Field), fields[j]? = some f →
    ¬ NoneBefore f.name fields j ∨ firstPlain? params f.name = none → fields'[j]? = some f

/-- A parameter and what becomes of it: a plain one takes the value of the one that leads under its
name, and in a body only fields change. -/
inductive TakesLead (params : List Param) : Param → Param → Prop
  | plain {p first} (hplain : p.isBody = false) (hfirst : firstPlain? params p.name = some first) :
      TakesLead params p { p with value := first.value }
  | body {p refType fields fields'} (hplace : p.place = .body refType fields)
      (hfields : FieldsTakeLeads params fields fields') :
      TakesLead params p { p with place := .body refType fields' }

theorem exists_plain_iff {name : String} :
    (∃ q ∈ params.filter fun q => !q.isBody, q.name = name) ↔
      ∃ first, firstPlain? params name = some first := by
  rw [← Option.isSome_iff_exists, firstPlain?, List.find?_isSome]
  simp [and_assoc]

/-- The plain parameters, once shared, give the fields of a body the values that lead. -/
theorem takeValues_takes_leads (params : List Param) (fields : List Field) :
    FieldsTakeLeads params fields
      (takeValues ((sharePlain params).filter fun q => !q.isBody) fields) := by
  have hlead : ∀ q ∈ (sharePlain params).filter fun q => !q.isBody,
      leadValue? params q.name = some q.value := fun q hq => leadValue?_of_mem_sharePlain hq
  refine ⟨length_takeValues, ?_, ?_⟩
  · intro j f first hf hnone hfirst
    have hexists := exists_plain_iff.2 ⟨first, firstPlain?_sharePlain.trans hfirst⟩
    rw [getElem?_takeValues hlead, hf, Option.map_some, if_pos ⟨hexists, hnone⟩, leadValue?, hfirst]
    rfl
  · intro j f hf hstays
    rw [getElem?_takeValues hlead, hf, Option.map_some, if_neg]
    rintro ⟨hexists, hnone⟩
    obtain ⟨first, hfirst⟩ := exists_plain_iff.1 hexists
    rw [firstPlain?_sharePlain] at hfirst
    rcases hstays with hstays | hstays
    · exact hstays hnone
    · rw [hstays] at hfirst
      contradiction

/-- **What sharing does.** Each plain parameter takes the value that the first plain parameter of its
name had before, and in each body the first field of a name takes the value that the first plain
parameter of the name had. Nothing else changes, it is what a walk through the parameters does that
changes them on the way, and doing it again changes nothing. -/
theorem shareValues_takes_leads (a : Action) :
    List.Forall₂ (TakesLead a.params) a.params a.shareValues.params ∧
      a.shareValues = { a with params := a.shareValues.params } ∧
      shareWithBodies (shareAlong [] a.params) = a.shareValues.params ∧
      a.shareValues.shareValues = a.shareValues := by
  refine ⟨?_, rfl, by rw [shareAlong_eq_sharePlain]; rfl, shareValues_shareValues⟩
  show List.Forall₂ _ _ (shareWithBodies (sharePlain a.params))
  have hfields := takeValues_takes_leads a.params
  rw [shareWithBodies_eq]
  generalize takeValues ((sharePlain a.params).filter fun q => !q.isBody) = share at hfields ⊢
  rw [sharePlain_eq, List.map_map, List.forall₂_map_right_iff, List.forall₂_same]
  intro p hp
  rw [Function.comp_apply]
  cases hbody : p.isBody with
  | false =>
    obtain ⟨first, hfirst⟩ := exists_firstPlain? hp hbody
    rw [led_of_plain hbody hfirst, Param.mapFields_of_plain (Param.isBody_with_value.trans hbody)]
    exact .plain hbody hfirst
  | true =>
    obtain ⟨refType, fields, hplace⟩ : ∃ refType fields, p.place = .body refType fields := by
      cases hplace : p.place <;> simp_all [Param.isBody]
    have hleft : (led (firstPlain? a.params) p).mapFields share =
        { p with place := .body refType (share fields) } := by
      simp [led, hbody, Param.mapFields, hplace]
    rw [hleft]
    exact .body hplace (hfields fields)

end Action

end RestScenario
