import RestScenario.Proofs.Call.Latest
import RestScenario.Proofs.Call.Seeded
import RestScenario.Proofs.Database.ForeignKeys
import RestScenario.Proofs.Engine.Budget

/-!
# Rows that calls have in common

A call that follows others drops its insertions into tables that they provide. A path value that came
from a dropped row should come from elsewhere afterwards: from a row that is still there, or from the
path of an action in front.

**Rows that are kept.** Taking over path values never does harm: in a seeded call that is aligned, with
path parameters in the lead, every path value stays or is one of the values in front
(`Call.takesFrom_bindAfter`).

**Rows that are dropped.** A row is dropped for its table alone. The value that came from it is replaced
if an action in front hands one on: if it is on the same path or an ancestor, and has a value at the level
of the variable (`Call.TakesOver`). Then all path parameters of that name have it (`Call.value_bindWith`).
But where no action in front hands a value on, the call goes on pointing at a row that is never inserted
(`dropped_row_is_still_read`).

Main statement: `path_values_come_from_present_rows`.
-/

namespace RestScenario

/-! ## Path values that are taken over -/

namespace Action

variable {a o : Action} {V : Value → Prop} {n : Nat} {x y : String}

/-- After sharing, a path parameter has the path value of its name, where path parameters lead. -/
theorem PathsLead.pathValue?_of_mem_shareValues {p : Param} (h : a.PathsLead)
    (hp : p ∈ a.shareValues.params) (hpath : p.isPath = true) :
    pathValue? a.shareValues.params p.name = some p.value := by
  obtain ⟨first, hfirst⟩ := exists_firstPlain? hp (Param.isBody_of_isPath hpath)
  have hlead := h.of_labels labels_shareValues p hp hpath first hfirst
  rw [pathValue?_of_lead hfirst hlead,
    shared_shareValues.plain p hp (Param.isBody_of_isPath hpath) first hfirst]

section Other

variable (hother : ∀ name, ∀ v ∈ pathValue? o.params name, V v)
include hother

theorem of_lookup_takenFrom {v : Value} (h : (a.takenFrom o).reverse.lookup x = some v) : V v := by
  obtain ⟨before, after, heq, -⟩ := List.lookup_eq_some_iff.1 h
  have hmem : (x, v) ∈ a.takenFrom o := List.mem_reverse.1 (by rw [heq]; simp)
  obtain ⟨⟨mine, theirs⟩, -, htaken⟩ := List.mem_filterMap.1 hmem
  obtain ⟨w, hw, heq⟩ := Option.map_eq_some_iff.1 htaken
  obtain ⟨-, rfl⟩ : mine = x ∧ w = v := by simpa using heq
  exact hother theirs w hw

/-- A path value that was taken over stays so. -/
theorem pathValue_followPath_of (h : ∃ v ∈ pathValue? a.params x, V v) :
    ∃ v ∈ pathValue? (a.followPath o).params x, V v := by
  obtain ⟨v, hv, hV⟩ := h
  rw [pathValue?_followPath, Option.mem_def.1 hv]
  cases htaken : (a.takenFrom o).reverse.lookup x with
  | none => exact ⟨v, rfl, hV⟩
  | some w => exact ⟨w, rfl, of_lookup_takenFrom hother htaken⟩

/-- A path value is taken over at a level on which both paths match and have a value. -/
theorem pathValue_followPath_of_level (hx : a.path.elements[n]? = some (.var x))
    (hn : n < a.path.commonLevels o.path) (ha : (a.levelValue? n).isSome)
    (ho : (o.levelValue? n).isSome) : ∃ v ∈ pathValue? (a.followPath o).params x, V v := by
  obtain ⟨old, hold⟩ := Option.isSome_iff_exists.1 ha
  obtain ⟨new, hnew⟩ := Option.isSome_iff_exists.1 ho
  rw [levelValue?_of_var hx] at hold
  rw [pathValue?_followPath, hold]
  cases htaken : (a.takenFrom o).reverse.lookup x with
  | some w => exact ⟨w, rfl, of_lookup_takenFrom hother htaken⟩
  | none =>
    -- but the value of the other action at this level is one to take
    unfold levelValue? at hnew
    split at hnew
    · rename_i y hy
      have hmem : (x, new) ∈ a.takenFrom o :=
        List.mem_filterMap.2 ⟨(x, y), mem_sharedVariables_iff.2 ⟨n, hn, hx, hy⟩, by simp [hnew]⟩
      have hnone := List.lookup_eq_none_iff.1 htaken _ (List.mem_reverse.2 hmem)
      simp at hnone
    · cases hnew

end Other

end Action

namespace Call

section TakesOver

variable {c : Call} {a b : Action} {front : List Action} {V : Value → Prop} {n : Nat} {x : String}

/-- The action of a call that decides a level of another one: the target, as far as the paths of both
match, and that action itself beyond. -/
def decider (c : Call) (a : Action) (n : Nat) : Action :=
  match c.target? with
  | some target => if n < a.path.commonLevels target.path then target else a
  | none => a

/-- The call takes over a value for a variable of one of its actions: the variable stands at a level at
which the action has a value, and so have the action that decides the level, and one of those in front
that is on its path or on an ancestor of it. -/
def TakesOver (c : Call) (front : List Action) (a : Action) (x : String) : Prop :=
  ∃ n, a.path.elements[n]? = some (.var x) ∧ (a.levelValue? n).isSome ∧
    ((c.decider a n).levelValue? n).isSome ∧
    ∃ o ∈ front, o.path.isSameOrAncestorOf (c.decider a n).path = true ∧ (o.levelValue? n).isSome

variable (hfront : ∀ o ∈ front, ∀ name, ∀ v ∈ pathValue? o.params name, V v)
include hfront

/-- An action that follows several others has a path value from them if it had one before, or if one of
those that it follows has a value at the level. -/
theorem pathValue_followAll (hx : a.path.elements[n]? = some (.var x)) (ha : (a.levelValue? n).isSome)
    (h : (∃ v ∈ pathValue? a.params x, V v) ∨
      ∃ o ∈ front, o.path.isSameOrAncestorOf a.path = true ∧ (o.levelValue? n).isSome) :
    ∃ v ∈ pathValue? (followAll front a).params x, V v := by
  induction front generalizing a with
  | nil => simpa [followAll] using h
  | cons o rest ih =>
    obtain ⟨ho, hrest⟩ := List.forall_mem_cons.1 hfront
    by_cases hfollows : o.path.isSameOrAncestorOf a.path = true
    · have hstep : followAll (o :: rest) a = followAll rest (a.follow o) := by
        rw [followAll, List.foldl_cons, if_pos hfollows, followAll]
      rw [hstep]
      refine ih hrest hx (Action.isSome_levelValue?_follow.trans ha) ?_
      rw [Action.pathValue?_follow]
      rcases h with h | ⟨o', hmem, hsame, hlevel⟩
      · exact .inl (Action.pathValue_followPath_of ho h)
      · rcases List.mem_cons.1 hmem with rfl | hmem
        · have hn : n < a.path.commonLevels o'.path := by
            rw [PathTemplate.commonLevels_of_isSameOrAncestorOf hfollows]
            exact Action.lt_levels_of_levelValue? hlevel
          exact .inl (Action.pathValue_followPath_of_level ho hx hn ha hlevel)
        · exact .inr ⟨o', hmem, hsame, hlevel⟩
    · have hstep : followAll (o :: rest) a = followAll rest a := by
        rw [followAll, List.foldl_cons, if_neg hfollows, followAll]
      rw [hstep]
      refine ih hrest hx ha (h.imp_right ?_)
      rintro ⟨o', hmem, hsame, hlevel⟩
      rcases List.mem_cons.1 hmem with rfl | hmem
      · exact absurd hsame hfollows
      · exact ⟨o', hmem, hsame, hlevel⟩

/-- An action whose call takes over a value for a variable has it before values are shared. -/
theorem exists_value_of_takesOver {i j : Nat} {target : Action} (hi : c.targetIndex? = some i)
    (ht : c.actions[i]? = some target) (ha : c.actions[j]? = some a)
    (hdistinct : a.path.variableNames.Nodup) (h : c.TakesOver front a x) :
    ∃ v ∈ pathValue? (if j = i then followAll front a
      else (followAll front a).followPath (followAll front target)).params x, V v := by
  obtain ⟨n, hx, hown, hdecider, o, ho, hsame, hlevel⟩ := h
  have htarget : c.target? = some target := by simp [target?, hi, ht]
  by_cases hij : j = i
  · subst hij
    obtain rfl : a = target := Option.some.inj (ha.symm.trans ht)
    have hself : c.decider a n = a := by simp [decider, htarget]
    rw [hself] at hsame
    rw [if_pos rfl]
    exact pathValue_followAll hfront hx hown (.inr ⟨o, ho, hsame, hlevel⟩)
  · rw [if_neg hij, Action.pathValue?_followPath]
    by_cases hn : n < a.path.commonLevels target.path
    · -- the target decides, and hands on what it has taken over
      have hdecides : c.decider a n = target := by simp [decider, htarget, hn]
      rw [hdecides] at hdecider hsame
      obtain ⟨y, hy⟩ := Action.exists_var_of_levelValue? hdecider
      obtain ⟨w, hw, hV⟩ := pathValue_followAll hfront hy hdecider (.inr ⟨o, ho, hsame, hlevel⟩)
      have htaken : ((followAll front a).takenFrom (followAll front target)).reverse.lookup x =
          some w := by
        refine Action.lookup_takenFrom (n := n) ?_ ?_ ?_ ?_ hw <;> simp only [path_followAll]
        · exact hdistinct
        · exact PathTemplate.agrees_of_mem_take hn.le
        · exact hx
        · exact hy
      obtain ⟨v, hv⟩ : ∃ v, pathValue? (followAll front a).params x = some v := by
        rw [Action.levelValue?_of_var hx] at hown
        exact Option.isSome_iff_exists.1 (isSome_pathValue?_followAll.trans hown)
      rw [hv, htaken]
      exact ⟨w, rfl, hV⟩
    · have hdecides : c.decider a n = a := by simp [decider, htarget, hn]
      rw [hdecides] at hsame
      obtain ⟨v, hv, hV⟩ := pathValue_followAll hfront hx hown (.inr ⟨o, ho, hsame, hlevel⟩)
      have hnone : ((followAll front a).takenFrom (followAll front target)).reverse.lookup x =
          none := by
        refine Action.lookup_takenFrom_of_le (n := n) ?_ ?_ ?_ <;> simp only [path_followAll]
        · exact hdistinct
        · exact hx
        · exact Nat.not_lt.1 hn
      rw [Option.mem_def.1 hv, hnone]
      exact ⟨v, rfl, hV⟩

/-- A call that takes over a value for a variable has it in all path parameters of that name. -/
theorem value_bindWith (hlead : c.PathsLead) {j : Nat} (ha : c.actions[j]? = some a)
    (hdistinct : a.path.variableNames.Nodup) (h : c.TakesOver front a x)
    (hb : (c.bindWith front).actions[j]? = some b) {q : Param} (hq : q ∈ b.params)
    (hpath : q.isPath = true) (hname : q.name = x) : V q.value := by
  obtain ⟨i, target, hi, ht⟩ := exists_target (List.ne_nil_of_mem (List.mem_of_getElem? ha))
  obtain ⟨v, hv, hV⟩ := exists_value_of_takesOver hfront hi ht ha hdistinct h
  rw [actions_bindWith hi ht, List.getElem?_mapIdx, List.getElem?_map, ha] at hb
  obtain rfl := Option.some.inj hb
  have hbound : (if j = i then followAll front a
      else (followAll front a).followPath (followAll front target)).PathsLead := by
    refine (hlead a (List.mem_of_getElem? ha)).of_labels ?_
    split
    · exact labels_followAll
    · exact Action.labels_followPath.trans labels_followAll
  have hvalue := hbound.pathValue?_of_mem_shareValues hq hpath
  rw [hbound.pathValue?_shareValues, hname] at hvalue
  obtain rfl : q.value = v := Option.some.inj (hvalue.symm.trans hv)
  exact hV

end TakesOver

variable {c : Call} {front : List Call} {frontRows : List RowAction} {V : Value → Prop}

theorem rows_bindWith {actions : List Action} : (c.bindWith actions).rows = c.rows :=
  Scenario.rows_realign

theorem actions_dropProvided {preceding : List RowAction} :
    (c.dropProvided preceding).actions = c.actions := by
  unfold dropProvided
  dsimp only
  split <;> rfl

theorem actions_bindAfter : (c.bindAfter front frontRows).actions =
    (if (front.flatMap (·.actions)).isEmpty then c
      else c.bindWith (front.flatMap (·.actions))).actions := actions_dropProvided

section Rows

variable {β : Type} {f : RowAction → β}
  (hf : ∀ (a : RowAction) (references : List Reference), f { a with references } = f a)
include hf

theorem map_rows_dropProvided {preceding : List RowAction} :
    (c.dropProvided preceding).rows.map f =
      (c.rows.filter (isNeededAfter preceding)).map f := by
  unfold dropProvided
  dsimp only
  split
  · rename_i hlength
    rw [List.filter_eq_self.2 (List.length_filter_eq_length_iff.1 hlength)]
  · exact map_repairReferences hf

/-- A call that follows others keeps the rows that it needs after them, but for their references. -/
theorem map_rows_bindAfter : (c.bindAfter front frontRows).rows.map f =
    (c.rows.filter (isNeededAfter (rowsInFront frontRows front))).map f := by
  have hrows : (if (front.flatMap (·.actions)).isEmpty then c
      else c.bindWith (front.flatMap (·.actions))).rows = c.rows := by
    split
    · rfl
    · exact rows_bindWith
  unfold bindAfter
  dsimp only
  rw [map_rows_dropProvided hf, hrows]

end Rows

/-- The path values of an aligned call stay, or are taken over from the calls that it follows. -/
theorem takesFrom_bindAfter (haligned : c.Aligned) (hlead : c.PathsLead)
    (hfront : ∀ other ∈ front.flatMap (·.actions), ∀ name, ∀ v ∈ pathValue? other.params name, V v) :
    c.TakesFrom V (c.bindAfter front frontRows) := by
  show List.Forall₂ _ _ _
  rw [actions_bindAfter]
  split
  · exact List.forall₂_same.2 fun _ _ => .refl
  · exact takesFrom_bindWith haligned hlead hfront

/-- The value of a parameter, by the positions of its action and of itself. -/
def valueAt? (c : Call) (j i : Nat) : Option Value :=
  (c.actions[j]?.bind (·.params[i]?)).map (·.value)

theorem TakesFrom.exists_param {d : Call} (h : c.TakesFrom V d) {a : Action} {p : Param} {j i : Nat}
    (ha : c.actions[j]? = some a) (hp : a.params[i]? = some p) :
    ∃ b q, d.actions[j]? = some b ∧ b.params[i]? = some q ∧ p.TakesFrom V q := by
  obtain ⟨hj, rfl⟩ := List.getElem?_eq_some_iff.1 ha
  obtain ⟨hi, rfl⟩ := List.getElem?_eq_some_iff.1 hp
  have hj' : j < d.actions.length := h.length_eq ▸ hj
  have haction : c.actions[j].TakesFrom V d.actions[j] := h.get hj hj'
  have hi' : i < d.actions[j].params.length := haction.params.length_eq ▸ hi
  exact ⟨d.actions[j], d.actions[j].params[i], List.getElem?_eq_getElem hj',
    List.getElem?_eq_getElem hi', haction.params.get hi hi'⟩

end Call

/-- A row action on the table gives the column the value. -/
def Provides (rows : List RowAction) (table column : String) (v : Value) : Prop :=
  ∃ row ∈ rows, row.isOn table = true ∧ row.value? column = some v

instance {rows : List RowAction} {table column : String} {v : Value} :
    Decidable (Provides rows table column v) :=
  inferInstanceAs (Decidable (∃ row ∈ rows, row.isOn table = true ∧ row.value? column = some v))

/-- **Path values come from rows that are present**, or from the paths of the actions in front. Take a
seeded call in whose actions path parameters lead; if seeding changed none of its values, let it be
aligned. Let a path parameter have the value of a column in one of its rows, and let the call follow
others. The row is kept if it is selected, or if nothing in front is on its table; otherwise let the call
take over a value for the parameter. Then the value of the parameter is that of the column in a row of
the table which is there, or the value of a path parameter in front. -/
theorem path_values_come_from_present_rows {e e' : Engine} {unseeded c : Call} {forced : Bool}
    (hseeded : Gives (Composing.seedCall unseeded forced) e c e') (hlead : unseeded.PathsLead)
    (haligned : c.actions = unseeded.actions → unseeded.Aligned)
    {a : Action} {p : Param} {j i : Nat} (ha : c.actions[j]? = some a) (hp : a.params[i]? = some p)
    (hpath : p.isPath = true) {row : RowAction} {table column : String} (hrow : row ∈ c.rows)
    (htable : row.isOn table = true) (hcolumn : row.value? column = some p.value)
    {front : List Call} {frontRows : List RowAction}
    (hreached : row.isSelection = true ∨
      (∀ r ∈ rowsInFront frontRows front, r.tableKey ≠ row.tableKey) ∨
      a.path.variableNames.Nodup ∧ c.TakesOver (front.flatMap (·.actions)) a p.name) :
    ∃ v ∈ (c.bindAfter front frontRows).valueAt? j i,
      Provides (frontRows ++ front.flatMap (·.rows) ++ (c.bindAfter front frontRows).rows)
        table column v ∨
      ∃ other ∈ front.flatMap (·.actions), ∃ q ∈ other.params, q.isPath = true ∧ q.value = v := by
  obtain ⟨hlead', hsame⟩ := (Composing.aligned_seedCall hlead).of_gives hseeded
  have haligned' : c.Aligned := by
    rcases hsame with hsame | hc
    · exact (haligned hsame).of_actions hsame
    · exact hc
  have hfront : ∀ other ∈ front.flatMap (·.actions), ∀ name, ∀ v ∈ pathValue? other.params name,
      ∃ other ∈ front.flatMap (·.actions), ∃ q ∈ other.params, q.isPath = true ∧ q.value = v := by
    intro other hother name v hv
    obtain ⟨q, hq, hqpath, -, rfl⟩ := Action.exists_of_pathValue? hv
    exact ⟨other, hother, q, hq, hqpath, rfl⟩
  have hcall : c.TakesFrom _ (c.bindAfter front frontRows) :=
    Call.takesFrom_bindAfter haligned' hlead' hfront
  obtain ⟨b, q, hb, hq, htaken⟩ := hcall.exists_param ha hp
  refine ⟨q.value, by simp [Call.valueAt?, hb, hq], ?_⟩
  by_cases hneeded : isNeededAfter (rowsInFront frontRows front) row = true
  · -- the row is kept, so the value may stay
    refine (htaken.value hpath).imp_left fun hvalue => ?_
    have hmap : (row.isOn table, row.value? column) ∈
        (c.bindAfter front frontRows).rows.map fun r => (r.isOn table, r.value? column) := by
      rw [Call.map_rows_bindAfter fun _ _ => rfl]
      exact List.mem_map_of_mem (List.mem_filter.2 ⟨hrow, hneeded⟩)
    obtain ⟨kept, hmem, hsame⟩ := List.mem_map.1 hmap
    obtain ⟨hon, hval⟩ : kept.isOn table = row.isOn table ∧ kept.value? column = row.value? column := by
      simpa using hsame
    exact ⟨kept, List.mem_append_right _ hmem, hon.trans htable, hvalue ▸ hval.trans hcolumn⟩
  · -- the row is dropped, so the value is taken over
    obtain ⟨hselected, hprovided⟩ : row.isSelection = false ∧
        ∃ r ∈ rowsInFront frontRows front, r.tableKey = row.tableKey := by
      simpa [isNeededAfter] using hneeded
    obtain ⟨r, hr, hkey⟩ := hprovided
    have htakes : a.path.variableNames.Nodup ∧
        c.TakesOver (front.flatMap (·.actions)) a p.name := by
      refine (hreached.resolve_left (by simp [hselected])).resolve_left fun hnone => ?_
      exact hnone r hr hkey
    obtain ⟨hdistinct, htakes⟩ := htakes
    have hsome : (front.flatMap (·.actions)).isEmpty = false := by
      obtain ⟨-, -, -, -, o, ho, -⟩ := htakes
      exact List.isEmpty_eq_false_iff.2 (List.ne_nil_of_mem ho)
    rw [Call.actions_bindAfter, if_neg (by simp [hsome])] at hb
    exact .inr (Call.value_bindWith hfront hlead' ha hdistinct htakes hb (List.mem_of_getElem? hq)
      (htaken.isPath_eq.trans hpath) htaken.name_eq)

/-- Where a table has too few rows to select one, a call that is related to it alone is seeded with a
fresh row and those that it refers to. -/
theorem Composing.gives_seedCall_of_inserted {e e' : Engine} {c : Call} {table : String}
    {rows : List RowAction}
    (hdatabase : (!e.settings.involveDb || e.knowledge.schema.tables.isEmpty) = false)
    (htables : (e.knowledge.relatedTables c.resource).toList = [table])
    (hfew : (e.knowledge.snapshot.rows table).length < e.settings.minRowsOfTable)
    (hbuilt : Gives (build (Building.insertWithReferences e.knowledge.schema table)) e (.ok rows) e') :
    Gives (seedCall c false) e (e.attachRows c true (onePerTable rows)) e' := by
  have hsome : (e.knowledge.relatedTables c.resource).isEmpty = false := by
    unfold SortedSet.isEmpty
    rw [htables]
    rfl
  have chosen : Gives (chooseRow table false) e none e := by
    refine gives_bind.2 ⟨_, _, gives_get.2 ⟨rfl, rfl⟩, ?_⟩
    dsimp only
    rw [if_pos (by simpa using hfew)]
    exact gives_pure.2 ⟨rfl, rfl⟩
  have seeded : Gives (seedTable table false) e rows e' :=
    gives_bind.2 ⟨none, _, chosen, gives_bind.2 ⟨_, _, gives_get.2 ⟨rfl, rfl⟩,
      gives_bind.2 ⟨_, e', hbuilt, gives_pure.2 ⟨rfl, rfl⟩⟩⟩⟩
  have gathered : Gives (seedTables false (e.knowledge.relatedTables c.resource).toList) e rows e' := by
    rw [htables]
    exact gives_bind.2 ⟨_, e', seeded, gives_bind.2 ⟨_, _, gives_pure.2 ⟨rfl, rfl⟩,
      gives_pure.2 ⟨List.append_nil _, rfl⟩⟩⟩
  have attached := gives_seedCall_of_seedTables hdatabase (by simp [hsome]) gathered
  rwa [hsome] at attached

namespace Sample

/-- A call that reads a user. -/
def reading (id : Int) : Call :=
  .unseeded (.unvisited "GET" true 1) (.ofAction "/users/\x7bid\x7d" (readUser [numbered .path id]))
    [readUser [numbered .path id]] .notExisting

/-- The table of users. -/
def users : Table := ⟨"users", [⟨"id", .integer, true⟩], []⟩

/-- A row of the table of users. -/
def userRow (id : Int) : SortedMap String Value := .ofList [("id", .int id)]

/-- An engine for users that are created and read. User 5 exists. -/
def registrar (s : Settings) : Engine :=
  ((({ engine with settings := s } : Engine).load ⟨[createUser, readUser [numbered .path 0]]⟩
    (some ⟨⟨[users]⟩, Snapshot.empty.addRow "users" ⟨userRow 5⟩⟩)).toOption).getD engine

/-- A fresh user. -/
def freshUser (number : Nat) (id : Int) : RowAction := ⟨number, "users", .insert, userRow id, []⟩

/-- The insertion of a user. -/
def insertUser : Building (List RowAction) := do
  let (rows, _) ← Building.ofPlan (.row users .none)
  return rows

/-- The reading of user 8, seeded with a fresh user. -/
def readingInserted : Call := (registrar .standard).attachRows (reading 8) true [freshUser 3 1]

end Sample

open Sample in
/-- The table of users needs no other. -/
theorem plan_users : InsertionPlan.ofTable ⟨[users]⟩ "users" = .row users .none := by
  have found : Schema.table? ⟨[users]⟩ "users" = some users := by decide +kernel
  unfold InsertionPlan.ofTable
  rw [InsertionPlan.layOut_eq found, show users.foreignKeys = [] from rfl,
    InsertionPlan.layOutTargets]

open Sample in
theorem gives_insertUser {e : Engine} {rows : List RowAction} (hschema : e.knowledge.schema = ⟨[users]⟩)
    (hrows : ((Composing.build insertUser).run e).1.toOption = some (.ok rows)) :
    Gives (Composing.build (Building.insertWithReferences e.knowledge.schema "users")) e (.ok rows)
      ((Composing.build insertUser).run e).2 := by
  have plan : Building.insertWithReferences ⟨[users]⟩ "users" = insertUser := by
    unfold Building.insertWithReferences insertUser
    rw [plan_users]
  rw [hschema, plan]
  exact gives_of_toOption hrows

open Sample in
/-- The reading of user 8 is seeded with a fresh user 1. -/
theorem gives_readingInserted :
    ∃ e', Gives (Composing.seedCall (reading 8) false) (registrar .standard) readingInserted e' := by
  have built : Gives
      (Composing.build (Building.insertWithReferences (registrar .standard).knowledge.schema "users"))
      (registrar .standard) (.ok [freshUser 3 1]) _ :=
    gives_insertUser (by decide +kernel) (by decide +kernel)
  have seeded := Composing.gives_seedCall_of_inserted (c := reading 8) (by decide +kernel)
    (by decide +kernel) (by decide +kernel) built
  rw [show onePerTable [freshUser 3 1] = [freshUser 3 1] by decide +kernel] at seeded
  exact ⟨_, seeded⟩

open Sample in
/-- The reading of user 8 is bound to a fresh user 1. After a reading of user 7, which is in front, user 1
is not inserted, and user 7 is read. -/
theorem user_in_front_is_read :
    (readingInserted.bindAfter [reading 7] [freshUser 1 7]).rows = [] ∧
      ∃ v ∈ (readingInserted.bindAfter [reading 7] [freshUser 1 7]).valueAt? 0 0,
        Provides ([freshUser 1 7] ++ [reading 7].flatMap (·.rows) ++
          (readingInserted.bindAfter [reading 7] [freshUser 1 7]).rows) "users" "id" v ∨
        ∃ other ∈ [reading 7].flatMap (·.actions), ∃ q ∈ other.params,
          q.isPath = true ∧ q.value = v := by
  obtain ⟨e', seeded⟩ := gives_readingInserted
  have changed : readingInserted.actions ≠ (reading 8).actions := by decide +kernel
  have reached : readingInserted.TakesOver ([reading 7].flatMap (·.actions))
      (readUser [numbered .path 1]) "id" :=
    ⟨1, rfl, rfl, by decide +kernel, readUser [numbered .path 7], by decide +kernel,
      by decide +kernel, rfl⟩
  have inserted : freshUser 3 1 ∈ readingInserted.rows := by decide +kernel
  refine ⟨by decide +kernel, ?_⟩
  exact path_values_come_from_present_rows seeded (by decide +kernel)
    (fun hsame => absurd hsame changed) (a := readUser [numbered .path 1]) (p := numbered .path 1)
    (by decide +kernel) rfl rfl inserted (by decide +kernel) (by decide +kernel)
    (.inr (.inr ⟨by decide, reached⟩))

open Sample in
/-- The reading of user 8 is bound to a fresh user 1. After a creation with a fresh user 7 in front
that user is not inserted, but it is user 1 that is read. -/
theorem dropped_row_is_still_read :
    (∃ e', Gives (Composing.seedCall (reading 8) false) (registrar .standard) readingInserted e') ∧
      ⟨(readUser []).paramKey (numbered .path 1), none, "users", "id"⟩ ∈
        (registrar .standard).knowledge.bindings readingInserted.resource ∧
      readingInserted.actions.map (·.params) = [[numbered .path 1]] ∧
      Provides readingInserted.rows "users" "id" (.int 1) ∧
      (readingInserted.bindAfter [creation] [freshUser 1 7]).actions.map (·.params) =
        [[numbered .path 1]] ∧
      ¬ Provides ([freshUser 1 7] ++ [creation].flatMap (·.rows) ++
        (readingInserted.bindAfter [creation] [freshUser 1 7]).rows) "users" "id" (.int 1) ∧
      ([creation].flatMap (·.actions)).flatMap (·.params) = [] :=
  ⟨gives_readingInserted, by decide +kernel, by decide +kernel, by decide +kernel,
    by decide +kernel, by decide +kernel, rfl⟩

end RestScenario
