import Mathlib.Logic.Relation
import RestScenario.Database.Insertion
import RestScenario.Proofs.Computation
import RestScenario.Proofs.Scenario.References

/-!
# Insertions complete foreign keys

The rows of an insertion follow the foreign keys of the schema from the table asked for. What is shown
of them follows the recursion that lays out the plan:

- Each row comes after the rows that it refers to, so references are in order
  (`Building.always_inOrder`).
- Each row has a reference for each foreign key of its table. It is left without target where the table
  referred to is under way, and from any table that is under way foreign keys lead on to the one that
  is laid out (`Building.always_complete`). So only references along a cycle are left without target.
- Rows are numbered as they are built, without a gap (`Building.consecutive_ofPlan`).
- Where the schema has every table that foreign keys lead to, an insertion does not fail
  (`Building.succeeds_insertWithReferences`).
-/

namespace RestScenario

/-! ## Foreign keys between tables -/

namespace Schema

variable {schema : Schema} {name name' table : String} {t : Table} {k : ForeignKey}

theorem table?_congr (h : tableKey name = tableKey name') :
    schema.table? name = schema.table? name' := by
  unfold table?
  rw [h]

theorem table?_name (h : schema.table? name = some t) : schema.table? t.name = some t := by
  rw [table?_congr (InsertionPlan.table?_key h).2, h]

/-- The first table of a name in comparison form has a foreign key to another one. -/
def Refers (schema : Schema) (key target : String) : Prop :=
  ∃ name t, tableKey name = key ∧ schema.table? name = some t ∧
    ∃ k ∈ t.foreignKeys, tableKey k.targetTable = target

theorem refers_of_mem (h : schema.table? name = some t) (hk : k ∈ t.foreignKeys) :
    schema.Refers (tableKey name) (tableKey k.targetTable) :=
  ⟨name, t, rfl, h, k, hk, rfl⟩

/-- Foreign keys lead from the table around a cycle, or to one. -/
def ReachesCycle (schema : Schema) (table : String) : Prop :=
  ∃ key, Relation.ReflTransGen schema.Refers (tableKey table) key ∧
    Relation.TransGen schema.Refers key key

/-- The schema has the table, and every table that foreign keys lead to from it. -/
def ClosedFrom (schema : Schema) (table : String) : Prop :=
  ∀ name, Relation.ReflTransGen schema.Refers (tableKey table) (tableKey name) →
    (schema.table? name).isSome = true

theorem ClosedFrom.target (h : schema.ClosedFrom name) (ht : schema.table? name = some t)
    (hk : k ∈ t.foreignKeys) : schema.ClosedFrom k.targetTable :=
  fun other hreached => h other (.head (refers_of_mem ht hk) hreached)

/-- A schema with all tables that its foreign keys refer to is closed from each of its tables. -/
theorem closedFrom_of_targets
    (htargets : ∀ t ∈ schema.tables, ∀ k ∈ t.foreignKeys, (schema.table? k.targetTable).isSome = true)
    (hname : (schema.table? name).isSome = true) : schema.ClosedFrom name := by
  have hfound : ∀ key, Relation.ReflTransGen schema.Refers (tableKey name) key →
      ∀ other, tableKey other = key → (schema.table? other).isSome = true := by
    intro key hreached
    induction hreached with
    | refl =>
      intro other hkey
      rwa [table?_congr hkey]
    | tail _ hrefers _ =>
      intro other hkey
      obtain ⟨owner, t, -, ht, k, hk, htarget⟩ := hrefers
      rw [table?_congr (hkey.trans htarget.symm)]
      exact htargets t (InsertionPlan.table?_key ht).1 k hk
  exact fun other hreached => hfound _ hreached other rfl

end Schema

/-! ## Plans -/

namespace InsertionPlan

variable {schema : Schema} {underWay : List String} {name : String} {t : Table}
  {fresh : tableKey name ∉ underWay}

theorem layOut_eq_missing (h : schema.table? name = none) :
    layOut schema underWay name fresh = .missing name := by
  unfold layOut
  split
  · rfl
  · rename_i hfound
    rw [h] at hfound
    cases hfound

/-- A table of the schema is planned with what its foreign keys refer to. -/
theorem layOut_eq (h : schema.table? name = some t) : layOut schema underWay name fresh =
    .row t (layOutTargets schema (tableKey t.name :: underWay) t.foreignKeys) := by
  unfold layOut
  split
  · rename_i hnone
    rw [h] at hnone
    cases hnone
  · rename_i found hfound
    obtain rfl := Option.some.inj (h.symm.trans hfound)
    rfl

end InsertionPlan

namespace Building

open InsertionPlan

variable {schema : Schema} {table : String}

/-! ## Order -/

/-- A row was built last, with its number, after the rows that it refers to. -/
structure OrderedRow (name : String) (built : List RowAction × Nat) : Prop where
  inOrder : referencesInOrder [] built.1 = true
  last : ∃ front row, built.1 = front ++ [row] ∧ row.id = built.2 ∧
    row.tableKey = tableKey name ∧ row.kind = .insert

/-- The references refer to rows that were built, in order themselves. -/
structure OrderedTargets (built : List RowAction × List Reference) : Prop where
  inOrder : referencesInOrder [] built.1 = true
  references : ∀ r ∈ built.2, r.inOrder (seenRows built.1) = true

theorem OrderedRow.reference {k : ForeignKey} {built : List RowAction × Nat}
    (h : OrderedRow k.targetTable built) :
    (⟨k.columns, k.targetTable, some built.2⟩ : Reference).inOrder (seenRows built.1) = true := by
  obtain ⟨front, row, hrows, hid, hkey, -⟩ := h.last
  rw [hrows, seenRows_append]
  unfold Reference.inOrder
  refine List.any_eq_true.2 ⟨(row.id, row.tableKey), by simp [seenRows], ?_⟩
  simp [hid, hkey]

/-- **Every row comes after the rows that it refers to.** -/
theorem always_inOrder : (∀ underWay name fresh,
      Always (ofPlan (layOut schema underWay name fresh)) (OrderedRow name)) ∧
    ∀ underWay keys, Always (ofTargets (layOutTargets schema underWay keys)) OrderedTargets := by
  apply layOut.mutual_induct
  case case1 =>
    intro underWay name fresh hnone
    rw [layOut_eq_missing hnone, ofPlan]
    exact ensures_throw
  case case2 =>
    intro underWay name fresh t hfound _ ih
    rw [layOut_eq hfound, ofPlan]
    refine ensures_bind ih fun targets htargets => ?_
    refine ensures_bind always_any fun values _ => ensures_bind always_any fun id _ => ?_
    refine ensures_pure ⟨referencesInOrder_concat htargets.inOrder htargets.references, ?_⟩
    exact ⟨_, _, rfl, rfl, (table?_key hfound).2, rfl⟩
  case case3 =>
    intro underWay
    rw [layOutTargets, ofTargets]
    exact ensures_pure ⟨rfl, by simp⟩
  case case4 =>
    intro underWay k rest hunderWay ih
    rw [layOutTargets, dif_pos hunderWay, ofTargets]
    refine ensures_bind ih fun targets htargets => ensures_pure ⟨htargets.inOrder, ?_⟩
    exact List.forall_mem_cons.2 ⟨rfl, htargets.references⟩
  case case5 =>
    intro underWay k rest fresh ihplan ihrest
    rw [layOutTargets, dif_neg fresh, ofTargets]
    refine ensures_bind ihplan fun row hrow => ensures_bind ihrest fun targets htargets => ?_
    refine ensures_pure ⟨referencesInOrder_append_of hrow.inOrder htargets.inOrder, ?_⟩
    have hseen : seenRows (row.1 ++ targets.1) = seenRows targets.1 ++ seenRows row.1 :=
      seenRows_append
    refine List.forall_mem_cons.2 ⟨?_, fun r hr => ?_⟩
    · rw [hseen]
      exact inOrder_mono (List.subset_append_right _ _) hrow.reference
    · rw [hseen]
      exact inOrder_mono (List.subset_append_left _ _) (htargets.references r hr)

/-! ## Completeness -/

/-- The row belongs to an insertion into the table named. Foreign keys lead to its table, and it has a
reference for each foreign key of its own, without target only where foreign keys lead back to it. -/
structure Completed (schema : Schema) (name : String) (a : RowAction) : Prop where
  reached : Relation.ReflTransGen schema.Refers (tableKey name) a.tableKey
  references : ∃ t, schema.table? a.table = some t ∧
    a.references.map (fun r => (r.columns, r.targetTable)) =
      t.foreignKeys.map fun k => (k.columns, k.targetTable)
  unbound : ∀ r ∈ a.references, r.target = none →
    Relation.ReflTransGen schema.Refers (tableKey r.targetTable) a.tableKey

/-- The references stand for foreign keys of the table named, and their rows are complete. -/
structure CompletedTargets (schema : Schema) (name : String) (keys : List ForeignKey)
    (built : List RowAction × List Reference) : Prop where
  rows : ∀ a ∈ built.1, Completed schema name a
  references : built.2.map (fun r => (r.columns, r.targetTable)) =
    keys.map fun k => (k.columns, k.targetTable)
  unbound : ∀ r ∈ built.2, r.target = none →
    Relation.ReflTransGen schema.Refers (tableKey r.targetTable) (tableKey name)

/-- From every table under way foreign keys lead to the one named. -/
def LeadsTo (schema : Schema) (underWay : List String) (name : String) : Prop :=
  ∀ key ∈ underWay, Relation.ReflTransGen schema.Refers key (tableKey name)

theorem Completed.of_target {name target : String} {a : RowAction}
    (h : schema.Refers (tableKey name) (tableKey target)) (ha : Completed schema target a) :
    Completed schema name a := ⟨.head h ha.reached, ha.references, ha.unbound⟩

theorem LeadsTo.target {underWay : List String} {name target : String}
    (h : LeadsTo schema underWay name) (hrefers : schema.Refers (tableKey name) (tableKey target)) :
    LeadsTo schema underWay target := fun key hkey => (h key hkey).tail hrefers

theorem LeadsTo.self {underWay : List String} {name : String} {t : Table}
    (h : LeadsTo schema underWay name) (ht : schema.table? name = some t) :
    LeadsTo schema (tableKey t.name :: underWay) name := by
  refine List.forall_mem_cons.2 ⟨?_, h⟩
  rw [(table?_key ht).2]

/-- The row of a table is complete when its references are. -/
theorem CompletedTargets.row {name : String} {t : Table} {built : List RowAction × List Reference}
    (ht : schema.table? name = some t) (h : CompletedTargets schema name t.foreignKeys built)
    {a : RowAction} (htable : a.table = t.name) (hreferences : a.references = built.2) :
    Completed schema name a := by
  have hkey : a.tableKey = tableKey name := by
    rw [RowAction.tableKey, htable, (table?_key ht).2]
  refine ⟨hkey ▸ .refl, ⟨t, ?_, hreferences ▸ h.references⟩, fun r hr hnone => ?_⟩
  · rw [htable, Schema.table?_name ht]
  · rw [hkey]
    exact h.unbound r (hreferences ▸ hr) hnone

/-- **References are complete, and left without target only along cycles.** -/
theorem always_complete : (∀ underWay name fresh, LeadsTo schema underWay name →
      Always (ofPlan (layOut schema underWay name fresh)) fun built =>
        ∀ a ∈ built.1, Completed schema name a) ∧
    ∀ underWay keys, ∀ name t, schema.table? name = some t → keys ⊆ t.foreignKeys →
      LeadsTo schema underWay name →
      Always (ofTargets (layOutTargets schema underWay keys)) (CompletedTargets schema name keys) := by
  apply layOut.mutual_induct
  case case1 =>
    intro underWay name fresh hnone _
    rw [layOut_eq_missing hnone, ofPlan]
    exact ensures_throw
  case case2 =>
    intro underWay name fresh t hfound _ ih hleads
    rw [layOut_eq hfound, ofPlan]
    refine ensures_bind (ih name t hfound (List.Subset.refl _) (hleads.self hfound))
      fun targets htargets => ?_
    refine ensures_bind always_any fun values _ => ensures_bind always_any fun id _ => ?_
    refine ensures_pure (List.forall_mem_append.2 ⟨htargets.rows, ?_⟩)
    exact List.forall_mem_singleton.2 (htargets.row hfound rfl rfl)
  case case3 =>
    intro underWay name t _ _ _
    rw [layOutTargets, ofTargets]
    exact ensures_pure ⟨by simp, rfl, by simp⟩
  case case4 =>
    -- the only reference without target: foreign keys lead from its table to the one laid out
    intro underWay k rest hunderWay ih name t hfound hkeys hleads
    obtain ⟨-, hrest⟩ := List.cons_subset.1 hkeys
    rw [layOutTargets, dif_pos hunderWay, ofTargets]
    refine ensures_bind (ih name t hfound hrest hleads) fun targets htargets => ?_
    refine ensures_pure ⟨htargets.rows, congrArg _ htargets.references, ?_⟩
    exact List.forall_mem_cons.2 ⟨fun _ => hleads _ hunderWay, htargets.unbound⟩
  case case5 =>
    intro underWay k rest fresh ihplan ihrest name t hfound hkeys hleads
    obtain ⟨hk, hrest⟩ := List.cons_subset.1 hkeys
    have hrefers := Schema.refers_of_mem hfound hk
    rw [layOutTargets, dif_neg fresh, ofTargets]
    refine ensures_bind (ihplan (hleads.target hrefers)) fun row hrow => ?_
    refine ensures_bind (ihrest name t hfound hrest hleads) fun targets htargets => ?_
    refine ensures_pure ⟨?_, congrArg _ htargets.references, ?_⟩
    · exact List.forall_mem_append.2 ⟨fun a ha => (hrow a ha).of_target hrefers, htargets.rows⟩
    · exact List.forall_mem_cons.2 ⟨by simp, htargets.unbound⟩

/-! ## Numbers -/

/-- The rows have the numbers of the supply one after another, up to the next one of the other. -/
structure Consecutive (s s' : Supply) (rows : List RowAction) : Prop where
  ids : rows.map RowAction.id = List.range' (max s.nextId 1) rows.length
  next : max s'.nextId 1 = max s.nextId 1 + rows.length

theorem Consecutive.nil {s : Supply} : Consecutive s s [] := ⟨rfl, rfl⟩

theorem Consecutive.append {s s₁ s' : Supply} {rows rows' : List RowAction}
    (h : Consecutive s s₁ rows) (h' : Consecutive s₁ s' rows') : Consecutive s s' (rows ++ rows') := by
  constructor
  · rw [List.map_append, h.ids, h'.ids, h.next, List.length_append, List.range'_append_1]
  · rw [h'.next, h.next, List.length_append, Nat.add_assoc]

theorem gives_takeId {s s' : Supply} {id : Nat} : Gives takeId s id s' ↔
    max s.nextId 1 = id ∧ { s with nextId := max s.nextId 1 + 1 } = s' := by
  show @Eq (Except Error Nat × Supply) (.ok _, _) (.ok id, s') ↔ _
  simp

theorem nextId_of_gives_draw {α : Type} {d : Random.Draw α} {s s' : Supply} {a : α}
    (h : Gives (draw d) s a s') : s'.nextId = s.nextId :=
  congrArg (fun run : Except Error α × Supply => run.2.nextId) h.symm

/-- A row that is built last takes the next number. -/
theorem Consecutive.concat {s s₁ s₂ s' : Supply} {rows : List RowAction} {a : RowAction}
    (h : Consecutive s s₁ rows) (hdrawn : s₂.nextId = s₁.nextId) (htaken : Gives takeId s₂ a.id s') :
    Consecutive s s' (rows ++ [a]) := by
  obtain ⟨hid, rfl⟩ := gives_takeId.1 htaken
  rw [hdrawn] at hid
  refine h.append ⟨by simp [← hid], ?_⟩
  show max (max s₂.nextId 1 + 1) 1 = max s₁.nextId 1 + 1
  rw [hdrawn]
  omega

mutual

theorem consecutive_ofPlan {s s' : Supply} : (plan : InsertionPlan) → {built : List RowAction × Nat} →
    Gives (ofPlan plan) s built s' → Consecutive s s' built.1
  | .missing name, built, h => by
    unfold ofPlan at h
    exact (not_gives_throw h).elim
  | .row t targets, built, h => by
    unfold ofPlan at h
    obtain ⟨refs, s₁, htargets, h⟩ := gives_bind.1 h
    obtain ⟨values, s₂, hdrawn, h⟩ := gives_bind.1 h
    obtain ⟨id, s₃, htaken, h⟩ := gives_bind.1 h
    obtain ⟨rfl, rfl⟩ := gives_pure.1 h
    exact (consecutive_ofTargets targets htargets).concat (nextId_of_gives_draw hdrawn) htaken

theorem consecutive_ofTargets {s s' : Supply} : (targets : TargetPlans) →
    {built : List RowAction × List Reference} → Gives (ofTargets targets) s built s' →
    Consecutive s s' built.1
  | .none, built, h => by
    unfold ofTargets at h
    obtain ⟨rfl, rfl⟩ := gives_pure.1 h
    exact .nil
  | .underWay k rest, built, h => by
    unfold ofTargets at h
    obtain ⟨refs, s₁, hrest, h⟩ := gives_bind.1 h
    have taken : Consecutive s s₁ refs.1 := consecutive_ofTargets rest hrest
    obtain ⟨rfl, rfl⟩ := gives_pure.1 h
    exact taken
  | .insert k plan rest, built, h => by
    unfold ofTargets at h
    obtain ⟨row, s₁, hplan, h⟩ := gives_bind.1 h
    obtain ⟨refs, s₂, hrest, h⟩ := gives_bind.1 h
    obtain ⟨rfl, rfl⟩ := gives_pure.1 h
    exact (consecutive_ofPlan plan hplan).append (consecutive_ofTargets rest hrest)

end

/-! ## Success -/

theorem succeeds_draw {α : Type} {d : Random.Draw α} :
    Succeeds (fun _ => True) (draw d) fun _ => True :=
  fun _ _ => ⟨fun _ _ => ⟨trivial, trivial⟩, fun _ he => nomatch he⟩

theorem succeeds_takeId : Succeeds (fun _ => True) takeId fun _ => True :=
  fun _ _ => ⟨fun _ _ => ⟨trivial, trivial⟩, fun _ he => nomatch he⟩

theorem succeeds_layOut : (∀ underWay name fresh, schema.ClosedFrom name →
      Succeeds (fun _ => True) (ofPlan (layOut schema underWay name fresh)) fun _ => True) ∧
    ∀ underWay keys, (∀ k ∈ keys, schema.ClosedFrom k.targetTable) →
      Succeeds (fun _ => True) (ofTargets (layOutTargets schema underWay keys)) fun _ => True := by
  apply layOut.mutual_induct
  case case1 =>
    intro underWay name fresh hnone hclosed
    have hfound := hclosed name .refl
    rw [hnone] at hfound
    cases hfound
  case case2 =>
    intro underWay name fresh t hfound _ ih hclosed
    rw [layOut_eq hfound, ofPlan]
    refine succeeds_bind (ih fun k hk => hclosed.target hfound hk) fun targets _ => ?_
    refine succeeds_bind succeeds_draw fun values _ => succeeds_bind succeeds_takeId fun id _ => ?_
    exact succeeds_pure trivial
  case case3 =>
    intro underWay _
    rw [layOutTargets, ofTargets]
    exact succeeds_pure trivial
  case case4 =>
    intro underWay k rest hunderWay ih hclosed
    obtain ⟨-, hrest⟩ := List.forall_mem_cons.1 hclosed
    rw [layOutTargets, dif_pos hunderWay, ofTargets]
    exact succeeds_bind (ih hrest) fun _ _ => succeeds_pure trivial
  case case5 =>
    intro underWay k rest fresh ihplan ihrest hclosed
    obtain ⟨hk, hrest⟩ := List.forall_mem_cons.1 hclosed
    rw [layOutTargets, dif_neg fresh, ofTargets]
    refine succeeds_bind (ihplan hk) fun _ _ => succeeds_bind (ihrest hrest) fun _ _ => ?_
    exact succeeds_pure trivial

/-- **A table is inserted into without failing** where the schema has all that foreign keys lead to. -/
theorem succeeds_insertWithReferences (h : schema.ClosedFrom table) :
    Succeeds (fun _ => True) (insertWithReferences schema table) fun _ => True :=
  succeeds_bind (succeeds_layOut.1 [] table (by simp) h) fun _ _ => succeeds_pure trivial

/-! ## Insertions -/

theorem always_insertWithReferences : Always (insertWithReferences schema table) fun rows =>
    referencesInOrder [] rows = true ∧ (∃ front row, rows = front ++ [row] ∧
      row.kind = .insert ∧ row.isOn table = true) ∧ ∀ a ∈ rows, Completed schema table a := by
  have hordered : Always (ofPlan (.ofTable schema table)) (OrderedRow table) :=
    always_inOrder.1 [] table (by simp)
  have hcomplete : Always (ofPlan (.ofTable schema table)) fun built =>
      ∀ a ∈ built.1, Completed schema table a :=
    always_complete.1 [] table (by simp) (by simp [LeadsTo])
  refine ensures_bind (hordered.and_always hcomplete) fun built h => ensures_pure ?_
  obtain ⟨front, row, hrows, -, hkey, hkind⟩ := h.1.last
  exact ⟨h.1.inOrder, ⟨front, row, hrows, hkind, by simp [RowAction.isOn, hkey]⟩, h.2⟩

/-- Where foreign keys lead around no cycle, every reference has a target. -/
theorem Completed.bound {a : RowAction} {r : Reference} (ha : Completed schema table a)
    (hcycle : ¬ schema.ReachesCycle table) (hr : r ∈ a.references) : r.target.isSome = true := by
  refine Option.isSome_iff_ne_none.2 fun hnone => ?_
  obtain ⟨t, ht, hreferences⟩ := ha.references
  have hmem : (r.columns, r.targetTable) ∈ t.foreignKeys.map fun k => (k.columns, k.targetTable) :=
    hreferences ▸ List.mem_map_of_mem hr
  obtain ⟨k, hk, hsame⟩ := List.mem_map.1 hmem
  have hrefers : schema.Refers a.tableKey (tableKey r.targetTable) := by
    have htarget : k.targetTable = r.targetTable := congrArg Prod.snd hsame
    exact htarget ▸ Schema.refers_of_mem ht hk
  exact hcycle ⟨a.tableKey, ha.reached, .head' hrefers (ha.unbound r hr hnone)⟩

end Building

open Building in
/-- **An insertion brings all the rows that it refers to.** Its references are in order by themselves,
and its last row is inserted into the table asked for. The rows are numbered one after another from the
next number on. Each has one reference for each foreign key of its table, in their order; a reference
has no target only where its table is that of the row, or foreign keys lead from it back to that of the
row. So where no cycle is reached from the table asked for, every reference has a target. -/
theorem insertion_completes_foreign_keys {schema : Schema} {table : String} {s s' : Supply}
    {rows : List RowAction} (h : Gives (insertWithReferences schema table) s rows s') :
    referencesInOrder [] rows = true ∧
      (∃ front row, rows = front ++ [row] ∧ row.kind = .insert ∧ row.isOn table = true) ∧
      rows.map RowAction.id = List.range' (max s.nextId 1) rows.length ∧
      (∀ a ∈ rows,
        (∃ t, schema.table? a.table = some t ∧
          a.references.map (fun r => (r.columns, r.targetTable)) =
            t.foreignKeys.map fun k => (k.columns, k.targetTable)) ∧
        ∀ r ∈ a.references, r.target = none →
          Relation.ReflTransGen schema.Refers (tableKey r.targetTable) a.tableKey) ∧
      (¬ schema.ReachesCycle table → ∀ a ∈ rows, ∀ r ∈ a.references, r.target.isSome = true) := by
  obtain ⟨hinOrder, hlast, hcomplete⟩ := always_insertWithReferences.of_gives h
  obtain ⟨built, s₁, hbuilt, hpure⟩ := gives_bind.1 h
  obtain ⟨rfl, rfl⟩ := gives_pure.1 hpure
  refine ⟨hinOrder, hlast, (consecutive_ofPlan _ hbuilt).ids, fun a ha => ?_, fun hcycle a ha r hr => ?_⟩
  · exact ⟨(hcomplete a ha).references, (hcomplete a ha).unbound⟩
  · exact (hcomplete a ha).bound hcycle hr

namespace Sample

/-- Employees have a boss among them and a department. -/
def employees : Table := ⟨"Employees", [⟨"id", .integer, true⟩],
  [⟨["boss"], "EMPLOYEES"⟩, ⟨["department"], "departments"⟩]⟩

/-- Departments have an employee as their head. -/
def departments : Table := ⟨"departments", [⟨"id", .integer, true⟩], [⟨["head"], "employees"⟩]⟩

/-- Both tables, with a cycle between them. -/
def company : Schema := ⟨[employees, departments]⟩

end Sample

open Sample in
theorem plan_departments : InsertionPlan.ofTable company "departments" =
    .row departments (.insert ⟨["head"], "employees"⟩
      (.row employees (.underWay ⟨["boss"], "EMPLOYEES"⟩
        (.underWay ⟨["department"], "departments"⟩ .none))) .none) := by
  have foundDepartments : company.table? "departments" = some departments := by decide +kernel
  have foundEmployees : company.table? "employees" = some employees := by decide +kernel
  unfold InsertionPlan.ofTable
  rw [InsertionPlan.layOut_eq foundDepartments,
    show departments.foreignKeys = [⟨["head"], "employees"⟩] from rfl,
    InsertionPlan.layOutTargets, dif_neg (by decide +kernel), InsertionPlan.layOutTargets,
    InsertionPlan.layOut_eq foundEmployees,
    show employees.foreignKeys = [⟨["boss"], "EMPLOYEES"⟩, ⟨["department"], "departments"⟩] from rfl,
    InsertionPlan.layOutTargets, dif_pos (by decide +kernel), InsertionPlan.layOutTargets,
    dif_pos (by decide +kernel), InsertionPlan.layOutTargets]

open Sample Building in
/-- The head of a department is inserted before it, without a boss and a department of its own. -/
theorem head_inserted_before_department :
    ∃ rows s', Gives (insertWithReferences company "departments") ⟨⟨fun _ => 0, 0, 0⟩, 5⟩ rows s' ∧
      rows.map RowAction.table = ["Employees", "departments"] ∧ rows.map RowAction.id = [5, 6] ∧
      rows.map (fun a => a.references.map Reference.target) = [[none, none], [some 5]] ∧
      referencesInOrder [] rows = true ∧
      ∀ a ∈ rows, ∀ r ∈ a.references, r.target = none →
        Relation.ReflTransGen company.Refers (tableKey r.targetTable) a.tableKey := by
  obtain ⟨rows, s', h, htables, htargets⟩ : ∃ rows s',
      Gives (insertWithReferences company "departments") ⟨⟨fun _ => 0, 0, 0⟩, 5⟩ rows s' ∧
        rows.map RowAction.table = ["Employees", "departments"] ∧
        rows.map (fun a => a.references.map Reference.target) = [[none, none], [some 5]] := by
    unfold insertWithReferences
    rw [plan_departments]
    exact ⟨_, _, gives_of_toOption (Option.some_get (by decide +kernel)).symm, by decide +kernel,
      by decide +kernel⟩
  obtain ⟨hinOrder, -, hids, hrows, -⟩ := insertion_completes_foreign_keys h
  have hlength : rows.length = 2 := by simpa using congrArg List.length htables
  rw [hlength] at hids
  exact ⟨rows, s', h, htables, hids, htargets, hinOrder, fun a ha => (hrows a ha).2⟩

end RestScenario
