import RestScenario.Proofs.Database.ForeignKeys

/-!
# Insertions that meet a missing table

An insertion follows the names in foreign keys from the table asked for. It passes over a table that is
under way, but not over one that was inserted already for another foreign key, so two things have to be
shown of it:

- **It comes to an end.** No table is twice under way, so insertions are nested at most once more than
  the schema has tables (`InsertionPlan.depth_layOut_le`).
- **It misses no table.** A name that foreign keys lead to is led to along a way that does not come back
  to where it starts: the way is cut at its last visit there (`Schema.exists_last_visit`). So every name
  that is led to at all is met with the tables passed on this way under way
  (`InsertionPlan.isSome_of_missingNames_eq_nil`).

An insertion fails at the first name it meets that is not a table (`Building.fails_ofPlan`), so it fails
exactly when foreign keys lead to such a name (`insertion_fails_where_table_is_missing`).
-/

namespace RestScenario

/-! ## Names in foreign keys -/

namespace Schema

variable {schema : Schema} {underWay : List String} {name target : String} {t : Table}

/-- A foreign key of the first table of a name refers to the other name. -/
def Mentions (schema : Schema) (name target : String) : Prop :=
  ∃ t, schema.table? name = some t ∧ ∃ k ∈ t.foreignKeys, k.targetTable = target

/-- A foreign key refers to a name whose table is not under way. -/
def Follows (schema : Schema) (underWay : List String) (name target : String) : Prop :=
  schema.Mentions name target ∧ tableKey target ∉ underWay

theorem follows_nil : schema.Follows [] = schema.Mentions := by
  funext name target
  simp [Follows]

/-- A way from a table ends at this table, or goes on from its last visit there without coming back. -/
theorem exists_last_visit (ht : schema.table? name = some t)
    (h : Relation.ReflTransGen (schema.Follows underWay) name target) :
    tableKey target = tableKey name ∨
      ∃ k ∈ t.foreignKeys, tableKey k.targetTable ∉ tableKey t.name :: underWay ∧
        Relation.ReflTransGen (schema.Follows (tableKey t.name :: underWay)) k.targetTable target := by
  have hkey : tableKey t.name = tableKey name := (InsertionPlan.table?_key ht).2
  induction h with
  | refl => exact .inl rfl
  | @tail last target _ hstep ih =>
    obtain ⟨hmentions, hfresh⟩ := hstep
    by_cases hback : tableKey target = tableKey name
    · exact .inl hback
    have hfresh : tableKey target ∉ tableKey t.name :: underWay := by
      rw [hkey, List.mem_cons, not_or]
      exact ⟨hback, hfresh⟩
    rcases ih with hlast | ⟨k, hk, hout, hway⟩
    · -- the last visit: the way goes on along a foreign key of the table
      obtain ⟨t', ht', k, hk, rfl⟩ := hmentions
      obtain rfl : t' = t := Option.some.inj (ht'.symm.trans ((table?_congr hlast).trans ht))
      exact .inr ⟨k, hk, hfresh, .refl⟩
    · exact .inr ⟨k, hk, hout, hway.tail ⟨hmentions, hfresh⟩⟩

end Schema

/-! ## Plans -/

mutual

/-- The names in a plan that are no tables, in the order in which they are met. -/
def InsertionPlan.missingNames : InsertionPlan → List String
  | .missing name => [name]
  | .row _ targets => targets.missingNames

/-- The names in plans for foreign keys that are no tables. -/
def TargetPlans.missingNames : TargetPlans → List String
  | .none => []
  | .underWay _ rest => rest.missingNames
  | .insert _ plan rest => plan.missingNames ++ rest.missingNames

end

mutual

/-- How many insertions are nested at most, the outermost one included. -/
def InsertionPlan.depth : InsertionPlan → Nat
  | .missing _ => 1
  | .row _ targets => targets.depth + 1

/-- How many insertions are nested at most for foreign keys. -/
def TargetPlans.depth : TargetPlans → Nat
  | .none => 0
  | .underWay _ rest => rest.depth
  | .insert _ plan rest => max plan.depth rest.depth

end

namespace InsertionPlan

variable {schema : Schema}

/-- **No table is twice under way**, so insertions are nested only as deep as tables are idle. -/
theorem depth_layOut_le : (∀ underWay name fresh,
      (layOut schema underWay name fresh).depth ≤ (idle schema underWay).length + 1) ∧
    ∀ underWay keys,
      (layOutTargets schema underWay keys).depth ≤ (idle schema underWay).length + 1 := by
  apply layOut.mutual_induct
  case case1 =>
    intro underWay name fresh hnone
    rw [layOut_eq_missing hnone, depth]
    omega
  case case2 =>
    intro underWay name fresh t hfound hfewer ih
    rw [layOut_eq hfound, depth]
    omega
  case case3 =>
    intro underWay
    rw [layOutTargets, TargetPlans.depth]
    omega
  case case4 =>
    intro underWay k rest hunderWay ih
    rw [layOutTargets, dif_pos hunderWay, TargetPlans.depth]
    exact ih
  case case5 =>
    intro underWay k rest fresh ihplan ihrest
    rw [layOutTargets, dif_neg fresh, TargetPlans.depth]
    exact Nat.max_le.2 ⟨ihplan, ihrest⟩

/-- Foreign keys lead to every name met, and a missing one is no table. -/
theorem mem_missingNames_layOut : (∀ underWay name fresh,
      ∀ other ∈ (layOut schema underWay name fresh).missingNames,
        Relation.ReflTransGen schema.Mentions name other ∧ schema.table? other = none) ∧
    ∀ underWay keys, ∀ other ∈ (layOutTargets schema underWay keys).missingNames,
      ∃ k ∈ keys, Relation.ReflTransGen schema.Mentions k.targetTable other ∧
        schema.table? other = none := by
  apply layOut.mutual_induct
  case case1 =>
    intro underWay name fresh hnone other hother
    rw [layOut_eq_missing hnone, missingNames, List.mem_singleton] at hother
    subst hother
    exact ⟨.refl, hnone⟩
  case case2 =>
    intro underWay name fresh t hfound _ ih other hother
    rw [layOut_eq hfound, missingNames] at hother
    obtain ⟨k, hk, hway, hnone⟩ := ih other hother
    exact ⟨.head ⟨t, hfound, k, hk, rfl⟩ hway, hnone⟩
  case case3 =>
    intro underWay other hother
    rw [layOutTargets, TargetPlans.missingNames] at hother
    cases hother
  case case4 =>
    intro underWay k rest hunderWay ih other hother
    rw [layOutTargets, dif_pos hunderWay, TargetPlans.missingNames] at hother
    obtain ⟨k', hk', hway⟩ := ih other hother
    exact ⟨k', List.mem_cons_of_mem _ hk', hway⟩
  case case5 =>
    intro underWay k rest fresh ihplan ihrest other hother
    rw [layOutTargets, dif_neg fresh, TargetPlans.missingNames, List.mem_append] at hother
    rcases hother with hother | hother
    · exact ⟨k, List.mem_cons_self, ihplan other hother⟩
    · obtain ⟨k', hk', hway⟩ := ihrest other hother
      exact ⟨k', List.mem_cons_of_mem _ hk', hway⟩

/-- **A plan misses no table.** Where none is missing in it, every name is a table that foreign keys
lead to past the tables under way. -/
theorem isSome_of_missingNames_eq_nil : (∀ underWay name fresh,
      (layOut schema underWay name fresh).missingNames = [] →
      ∀ other, Relation.ReflTransGen (schema.Follows underWay) name other →
        (schema.table? other).isSome = true) ∧
    ∀ underWay keys, (layOutTargets schema underWay keys).missingNames = [] →
      ∀ k ∈ keys, tableKey k.targetTable ∉ underWay →
      ∀ other, Relation.ReflTransGen (schema.Follows underWay) k.targetTable other →
        (schema.table? other).isSome = true := by
  apply layOut.mutual_induct
  case case1 =>
    intro underWay name fresh hnone hnil
    rw [layOut_eq_missing hnone, missingNames] at hnil
    cases hnil
  case case2 =>
    intro underWay name fresh t hfound _ ih hnil other hway
    rw [layOut_eq hfound, missingNames] at hnil
    rcases Schema.exists_last_visit hfound hway with hback | ⟨k, hk, hout, hway⟩
    · rw [Schema.table?_congr hback, hfound]
      rfl
    · exact ih hnil k hk hout other hway
  case case3 =>
    intro underWay _ k hk
    cases hk
  case case4 =>
    intro underWay k rest hunderWay ih hnil k' hk' hout other hway
    rw [layOutTargets, dif_pos hunderWay, TargetPlans.missingNames] at hnil
    rcases List.mem_cons.1 hk' with rfl | hk'
    · exact absurd hunderWay hout
    · exact ih hnil k' hk' hout other hway
  case case5 =>
    intro underWay k rest fresh ihplan ihrest hnil k' hk' hout other hway
    rw [layOutTargets, dif_neg fresh, TargetPlans.missingNames, List.append_eq_nil_iff] at hnil
    rcases List.mem_cons.1 hk' with rfl | hk'
    · exact ihplan hnil.1 other hway
    · exact ihrest hnil.2 k' hk' hout other hway

/-! ### Plans when nothing is under way -/

variable {table : String}

theorem depth_ofTable_le : (ofTable schema table).depth ≤ schema.tables.length + 1 :=
  Nat.le_trans (depth_layOut_le.1 [] table (by simp))
    (Nat.succ_le_succ (List.length_filter_le _ schema.tables))

theorem missing_of_mem {name : String} (h : name ∈ (ofTable schema table).missingNames) :
    Relation.ReflTransGen schema.Mentions table name ∧ schema.table? name = none :=
  mem_missingNames_layOut.1 [] table (by simp) name h

/-- No name is missing exactly when foreign keys lead to tables alone. -/
theorem missingNames_ofTable_eq_nil_iff : (ofTable schema table).missingNames = [] ↔
    ∀ name, Relation.ReflTransGen schema.Mentions table name →
      (schema.table? name).isSome = true := by
  constructor
  · intro hnil name hway
    rw [← Schema.follows_nil] at hway
    exact isSome_of_missingNames_eq_nil.1 [] table (by simp) hnil name hway
  · intro hfound
    refine List.eq_nil_iff_forall_not_mem.2 fun name hname => ?_
    obtain ⟨hway, hnone⟩ := missing_of_mem hname
    have hsome := hfound name hway
    rw [hnone] at hsome
    contradiction

end InsertionPlan

/-! ## Failures -/

namespace Building

variable {schema : Schema} {table : String} {s : Supply} {e : Error}

mutual

/-- **Building fails at the first name that is no table.** -/
theorem fails_ofPlan : (plan : InsertionPlan) → ∀ {s e},
    Fails (ofPlan plan) s e ↔ plan.missingNames.head?.map Error.unknownTable = some e
  | .missing name, s, e => by
    rw [ofPlan, fails_throw, InsertionPlan.missingNames, List.head?_cons, Option.map_some,
      Option.some.injEq]
  | .row t targets, s, e => by
    rw [ofPlan, InsertionPlan.missingNames, ← fails_ofTargets targets, fails_bind_left]
    intro built s₁
    refine Succeeds.not_fails (I := fun _ => True) (P := fun _ => True) ?_ trivial
    exact succeeds_bind succeeds_draw fun _ _ =>
      succeeds_bind succeeds_takeId fun _ _ => succeeds_pure trivial

theorem fails_ofTargets : (targets : TargetPlans) → ∀ {s e},
    Fails (ofTargets targets) s e ↔ targets.missingNames.head?.map Error.unknownTable = some e
  | .none, s, e => by
    rw [ofTargets, TargetPlans.missingNames]
    exact iff_of_false not_fails_pure (by simp)
  | .underWay k rest, s, e => by
    rw [ofTargets, TargetPlans.missingNames, ← fails_ofTargets rest,
      fails_bind_left fun _ _ => not_fails_pure]
  | .insert k plan rest, s, e => by
    have hrest : ∀ (row : List RowAction × Nat) s₁, Fails (do
        let (more, references) ← ofTargets rest
        return (row.1 ++ more, ⟨k.columns, k.targetTable, some row.2⟩ :: references)) s₁ e ↔
        rest.missingNames.head?.map Error.unknownTable = some e :=
      fun row s₁ => by rw [fails_bind_left fun _ _ => not_fails_pure, fails_ofTargets rest]
    rw [ofTargets, TargetPlans.missingNames, List.head?_append, fails_bind, fails_ofPlan plan]
    simp only [hrest, exists_and_right]
    cases hnames : plan.missingNames with
    | nil =>
      have hgives : ∃ row s₁, Gives (ofPlan plan) s row s₁ :=
        exists_gives_iff.2 fun e' he' => by simp [fails_ofPlan plan, hnames] at he'
      simp [hgives]
    | cons name names =>
      have hfails : Fails (ofPlan plan) s (.unknownTable name) :=
        (fails_ofPlan plan).2 (by simp [hnames])
      have hnone : ¬ ∃ row s₁, Gives (ofPlan plan) s row s₁ :=
        fun hgives => exists_gives_iff.1 hgives _ hfails
      simp [hnone]

end

theorem fails_insertWithReferences : Fails (insertWithReferences schema table) s e ↔
    (InsertionPlan.ofTable schema table).missingNames.head?.map Error.unknownTable = some e := by
  rw [insertWithReferences, fails_bind_left fun _ _ => not_fails_pure, fails_ofPlan]

end Building

open Building in
/-- **An insertion fails exactly where a table is missing.** Insertions are nested at most once more
than the schema has tables. An insertion fails for an unknown table exactly when foreign keys lead from
the name asked for to a name that is no table of the schema; it fails for no other reason, and names
such a table. It gives rows exactly when foreign keys lead to tables alone. -/
theorem insertion_fails_where_table_is_missing (schema : Schema) (table : String) (s : Supply) :
    (InsertionPlan.ofTable schema table).depth ≤ schema.tables.length + 1 ∧
      ((∃ name, Fails (insertWithReferences schema table) s (.unknownTable name)) ↔
        ∃ name, Relation.ReflTransGen schema.Mentions table name ∧ schema.table? name = none) ∧
      (∀ e, Fails (insertWithReferences schema table) s e → ∃ name, e = .unknownTable name ∧
        Relation.ReflTransGen schema.Mentions table name ∧ schema.table? name = none) ∧
      ((∃ rows s', Gives (insertWithReferences schema table) s rows s') ↔
        ∀ name, Relation.ReflTransGen schema.Mentions table name →
          (schema.table? name).isSome = true) := by
  have hcause : ∀ e, Fails (insertWithReferences schema table) s e → ∃ name, e = .unknownTable name ∧
      Relation.ReflTransGen schema.Mentions table name ∧ schema.table? name = none := by
    intro e he
    obtain ⟨name, hname, rfl⟩ := Option.map_eq_some_iff.1 (fails_insertWithReferences.1 he)
    exact ⟨name, rfl, InsertionPlan.missing_of_mem (List.mem_of_head? hname)⟩
  have hgives : (∃ rows s', Gives (insertWithReferences schema table) s rows s') ↔
      ∀ name, Relation.ReflTransGen schema.Mentions table name →
        (schema.table? name).isSome = true := by
    rw [exists_gives_iff, ← InsertionPlan.missingNames_ofTable_eq_nil_iff]
    simp only [fails_insertWithReferences]
    cases (InsertionPlan.ofTable schema table).missingNames <;> simp
  refine ⟨InsertionPlan.depth_ofTable_le, ⟨?_, ?_⟩, hcause, hgives⟩
  · rintro ⟨name, hname⟩
    obtain ⟨other, -, hother⟩ := hcause _ hname
    exact ⟨other, hother⟩
  · rintro ⟨name, hway, hnone⟩
    -- no rows are given, so there is an error, and its cause is the only one
    have hfails : ∃ e, Fails (insertWithReferences schema table) s e := by
      by_contra hnever
      have hfound := hgives.1 (exists_gives_iff.2 fun e he => hnever ⟨e, he⟩) name hway
      rw [hnone] at hfound
      contradiction
    obtain ⟨e, he⟩ := hfails
    obtain ⟨other, rfl, -⟩ := hcause e he
    exact ⟨other, he⟩

end RestScenario
