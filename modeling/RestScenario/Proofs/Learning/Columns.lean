import RestScenario.Learning.Columns
import RestScenario.Learning.Refinement
import RestScenario.Proofs.Lists
import RestScenario.Proofs.Number.Rank
import RestScenario.Proofs.Ordered.Map

/-!
# Which columns parameters are bound to

**Ranking.** A column beats another one on the verdict on its table, then on its similarity, then on
the name of its table (`TableKnowledge.Beats`). That is a comparison of places in a linear order
(`beats_iff`), and the scan for the best column ends with one that no other beats
(`isBest_of_bestColumn?`).

**Vote.** Every field of a body votes for the table of its best column. The counters hold the
support of each table (`get?_votes`), so the table that is chosen wins the vote:
`winsVote_of_majorityTable?`.

Main statement: `parameters_take_their_best_columns`.
-/

namespace RestScenario

namespace TableKnowledge

variable {k : TableKnowledge} {b c d m : ColumnMatch} {columns : List ColumnMatch}

/-! ## Ranking -/

/-- One column beats another: its table is confirmed and the other's is not, or it is more similar
where the verdicts agree, or its table has the smaller name where the similarities agree as well. -/
def Beats (k : TableKnowledge) (c d : ColumnMatch) : Prop :=
  (k.isConfirmed c.table = true ∧ k.isConfirmed d.table = false) ∨
  (k.isConfirmed c.table = k.isConfirmed d.table ∧
    (Number.rank d.similarity < Number.rank c.similarity ∨
      (Number.rank d.similarity = Number.rank c.similarity ∧ c.table < d.table)))

/-- A column of a list that no column of the list beats. -/
def IsBest (k : TableKnowledge) (columns : List ColumnMatch) (c : ColumnMatch) : Prop :=
  c ∈ columns ∧ ∀ d ∈ columns, ¬ k.Beats d c

instance : Decidable (k.Beats c d) := inferInstanceAs (Decidable (_ ∨ _))

instance : Decidable (k.IsBest columns c) := inferInstanceAs (Decidable (_ ∧ _))

/-- Where a column stands among others. -/
def standing (k : TableKnowledge) (c : ColumnMatch) : Bool ×ₗ ℤ ×ₗ Stringᵒᵈ :=
  toLex (k.isConfirmed c.table, toLex (Number.rank c.similarity, OrderDual.toDual c.table))

theorem beats_iff : k.Beats c d ↔ k.standing d < k.standing c := by
  simp only [Beats, standing, Prod.Lex.toLex_lt_toLex, OrderDual.toDual_lt_toDual, Bool.lt_iff]
  tauto

theorem compareColumns_eq_gt_iff : k.compareColumns b m = .gt ↔ k.Beats b m := by
  simp only [compareColumns, Ordering.then_eq_gt, compare_gt_iff_gt, compare_eq_iff_eq, Beats]
  cases k.isConfirmed b.table <;> cases k.isConfirmed m.table <;>
    simp [eq_comm (a := Number.rank b.similarity)]

/-- A more similar column beats another one where the verdicts on both tables agree. -/
theorem beats_of_lt (hverdict : k.isConfirmed c.table = k.isConfirmed d.table)
    (h : d.similarity < c.similarity) : k.Beats c d :=
  .inr ⟨hverdict, .inl (Number.rank_lt_rank_of_lt h)⟩

theorem table_eq_of_isBest (hc : k.IsBest columns c) (hd : k.IsBest columns d) :
    c.table = d.table := by
  have hle := hc.2 d hd.1
  have hge := hd.2 c hc.1
  rw [beats_iff, not_lt] at hle hge
  exact congrArg (fun p => OrderDual.ofDual (ofLex (ofLex p).2).2) (le_antisymm hge hle)

/-- The better of two columns stands at least as high as both. -/
theorem betterColumn_some : ∃ c, k.betterColumn (some b) m = some c ∧ (c = b ∨ c = m) ∧
    k.standing b ≤ k.standing c ∧ k.standing m ≤ k.standing c := by
  by_cases h : k.compareColumns b m = .gt
  · refine ⟨b, by simp [betterColumn, h], .inl rfl, le_rfl, ?_⟩
    exact (beats_iff.1 (compareColumns_eq_gt_iff.1 h)).le
  · refine ⟨m, by simp [betterColumn, h], .inr rfl, ?_, le_rfl⟩
    exact not_lt.1 fun hlt => h (compareColumns_eq_gt_iff.2 (beats_iff.2 hlt))

theorem exists_foldl_betterColumn (k : TableKnowledge) (b : ColumnMatch)
    (columns : List ColumnMatch) : ∃ c, columns.foldl k.betterColumn (some b) = some c ∧
    c ∈ b :: columns ∧ ∀ d ∈ b :: columns, k.standing d ≤ k.standing c := by
  induction columns generalizing b with
  | nil => exact ⟨b, rfl, by simp, by simp⟩
  | cons m rest ih =>
    obtain ⟨b', hb', hfrom, hb, hm⟩ := betterColumn_some (k := k) (b := b) (m := m)
    obtain ⟨c, hc, hmem, hmax⟩ := ih b'
    have hhead := hmax b' (by simp)
    refine ⟨c, by rw [List.foldl_cons, hb', hc], ?_, fun d hd => ?_⟩
    · rcases hfrom with rfl | rfl <;> grind
    · rcases List.mem_cons.1 hd with rfl | hd
      · exact hb.trans hhead
      · rcases List.mem_cons.1 hd with rfl | hd
        · exact hm.trans hhead
        · exact hmax d (by simp [hd])

/-- The best column of a list is one that no column of the list beats. -/
theorem isBest_of_bestColumn? (h : k.bestColumn? columns = some c) : k.IsBest columns c := by
  cases columns with
  | nil => simp [bestColumn?] at h
  | cons b rest =>
    obtain ⟨c', hc', hmem, hmax⟩ := exists_foldl_betterColumn k b rest
    obtain rfl : c' = c := Option.some.inj (hc'.symm.trans h)
    exact ⟨hmem, fun d hd hbeats => (beats_iff.1 hbeats).not_ge (hmax d hd)⟩

theorem exists_bestColumn? (h : columns ≠ []) : ∃ c, k.bestColumn? columns = some c := by
  obtain ⟨b, rest, rfl⟩ := List.exists_cons_of_ne_nil h
  obtain ⟨c, hc, -⟩ := exists_foldl_betterColumn k b rest
  exact ⟨c, hc⟩

theorem bestColumn?_eq_none_iff : k.bestColumn? columns = none ↔ columns = [] := by
  refine ⟨fun h => ?_, fun h => by simp [h, bestColumn?]⟩
  by_contra hne
  obtain ⟨c, hc⟩ := exists_bestColumn? (k := k) hne
  simp [h] at hc

/-! ## Vote -/

variable {fields : SortedMap String (List ColumnMatch)} {table other : String}

/-- A field votes for the table of its best columns. -/
def VotesFor (k : TableKnowledge) (columns : List ColumnMatch) (table : String) : Prop :=
  ∃ c ∈ columns, k.IsBest columns c ∧ c.table = table

instance : Decidable (k.VotesFor columns table) := inferInstanceAs (Decidable (∃ c ∈ columns, _))

/-- All best columns of a field are on one table, so that it has one vote. -/
theorem votesFor_iff :
    k.VotesFor columns table ↔ (k.bestColumn? columns).map (·.table) = some table := by
  constructor
  · intro ⟨c, hmem, hbest, htable⟩
    obtain ⟨c', hc'⟩ := exists_bestColumn? (k := k) (List.ne_nil_of_mem hmem)
    rw [hc', Option.map_some, table_eq_of_isBest (isBest_of_bestColumn? hc') hbest, htable]
  · intro h
    obtain ⟨c, hc, htable⟩ := Option.map_eq_some_iff.1 h
    have hbest := isBest_of_bestColumn? hc
    exact ⟨c, hbest.1, hbest, htable⟩

/-- The number of fields that vote for a table. -/
def support (k : TableKnowledge) (fields : SortedMap String (List ColumnMatch)) (table : String) :
    Nat :=
  fields.values.countP fun columns => k.VotesFor columns table

/-- A table wins the vote: no other has more votes, nor as many and a smaller name. -/
def WinsVote (k : TableKnowledge) (fields : SortedMap String (List ColumnMatch)) (table : String) :
    Prop :=
  0 < k.support fields table ∧ ∀ other, k.support fields other < k.support fields table ∨
    (k.support fields other = k.support fields table ∧ table ≤ other)

/-- Counting under keys: a key that occurs is filed with the number of its occurrences. -/
theorem get?_foldl_count {m : SortedMap String Nat} {cs : List ColumnMatch} :
    (cs.foldl (fun m c => m.upsert c.table fun n => n.getD 0 + 1) m).get? table =
      if cs.countP (·.table = table) = 0 then m.get? table
      else some ((m.get? table).getD 0 + cs.countP (·.table = table)) := by
  induction cs generalizing m with
  | nil => simp
  | cons c rest ih =>
    rw [List.foldl_cons, ih, SortedMap.get?_upsert, List.countP_cons]
    by_cases htable : c.table = table
    · subst htable
      by_cases hrest : rest.countP (·.table = c.table) = 0
      · simp [hrest]
      · simp [hrest]
        omega
    · simp [htable, Ne.symm htable]

theorem support_eq : k.support fields table =
    (fields.values.filterMap k.bestColumn?).countP (·.table = table) := by
  rw [support, List.countP_filterMap]
  refine List.countP_congr fun columns _ => ?_
  rw [decide_eq_true_iff, votesFor_iff]
  cases k.bestColumn? columns <;> simp

theorem get?_votes : (k.votes fields).get? table =
    if k.support fields table = 0 then none else some (k.support fields table) := by
  have hempty : (∅ : SortedMap String Nat).get? table = none := rfl
  simp only [votes, get?_foldl_count, support_eq, hempty, Option.getD_none, Nat.zero_add]

theorem mem_entries_votes {n : Nat} : (table, n) ∈ (k.votes fields).entries ↔
    0 < n ∧ k.support fields table = n := by
  rw [SortedMap.mem_entries_iff, get?_votes]
  split <;> simp <;> omega

/-- The first entry that passes a test has the smallest key of all that pass it. -/
theorem key_le_of_find? {m : SortedMap String Nat} {test : String × Nat → Bool}
    {e e' : String × Nat} (h : m.entries.find? test = some e) (he' : e' ∈ m.entries)
    (htest : test e' = true) : e.1 ≤ e'.1 := by
  obtain ⟨-, before, after, hentries, hbefore⟩ := List.find?_eq_some_iff_append.1 h
  have hincreasing := m.increasing
  rw [hentries] at he' hincreasing
  rcases List.mem_append.1 he' with hin | hin
  · have hfails := hbefore e' hin
    simp [htest] at hfails
  · rcases List.mem_cons.1 hin with rfl | hin
    · exact le_rfl
    · have hlt := (List.pairwise_cons.1 (List.pairwise_append.1 hincreasing).2.1).1 e' hin
      exact (compare_lt_iff_lt.1 hlt).le

theorem winsVote_of_majorityTable? (h : k.majorityTable? fields = some table) :
    k.WinsVote fields table := by
  obtain ⟨⟨winner, n⟩, hfind, rfl⟩ := Option.map_eq_some_iff.1 h
  have htop : n = (k.votes fields).values.foldl max 0 := by simpa using List.find?_some hfind
  obtain ⟨hpos, hsupport⟩ := mem_entries_votes.1 (List.mem_of_find?_eq_some hfind)
  change k.WinsVote fields winner
  rw [WinsVote, hsupport]
  refine ⟨hpos, fun other => ?_⟩
  by_cases hnone : k.support fields other = 0
  · exact .inl (hnone ▸ hpos)
  · have hother : (other, k.support fields other) ∈ (k.votes fields).entries :=
      mem_entries_votes.2 ⟨Nat.pos_of_ne_zero hnone, rfl⟩
    have hle : k.support fields other ≤ n := by
      rw [htop]
      exact le_foldl_max _ (List.mem_cons_of_mem _ (List.mem_map_of_mem hother))
    refine hle.lt_or_eq.imp_right fun heq => ⟨heq, ?_⟩
    exact key_le_of_find? hfind hother (decide_eq_true (heq.trans htop))

theorem majorityTable?_eq_none_iff :
    k.majorityTable? fields = none ↔ ∀ columns ∈ fields.values, columns = [] := by
  have hfind : k.majorityTable? fields = none ↔ (k.votes fields).entries = [] := by
    rw [majorityTable?, Option.map_eq_none_iff, List.find?_eq_none]
    refine ⟨fun hnone => ?_, fun hnil => by simp [hnil]⟩
    by_contra hne
    obtain ⟨e, he, htop⟩ := exists_eq_foldl_max (fun e : String × Nat => e.2) hne
    exact hnone e he (decide_eq_true htop)
  rw [hfind]
  constructor
  · intro hnil columns hcolumns
    by_contra hne
    obtain ⟨c, hc⟩ := exists_bestColumn? (k := k) hne
    have hvote : k.VotesFor columns c.table := votesFor_iff.2 (by rw [hc, Option.map_some])
    have hpos : 0 < k.support fields c.table :=
      List.countP_pos_iff.2 ⟨columns, hcolumns, decide_eq_true hvote⟩
    simpa [hnil] using mem_entries_votes.2 ⟨hpos, rfl⟩
  · intro hempty
    refine List.eq_nil_iff_forall_not_mem.2 fun ⟨table, n⟩ hentry => ?_
    obtain ⟨hpos, hsupport⟩ := mem_entries_votes.1 hentry
    obtain ⟨columns, hcolumns, hvote⟩ := List.countP_pos_iff.1 (hsupport ▸ hpos)
    obtain ⟨c, hc, -⟩ := of_decide_eq_true hvote
    simp [hempty columns hcolumns] at hc

/-! ## Bindings -/

variable {param key : String}

theorem param_of_mem_bindingsOf {p : ParamColumns} {b : ColumnBinding}
    (h : b ∈ k.bindingsOf param p) : b.param = param := by
  cases p with
  | simple columns =>
    rw [bindingsOf] at h
    split at h
    · rw [List.mem_singleton.1 h]
    · exact absurd h List.not_mem_nil
  | body fields =>
    rw [bindingsOf] at h
    split at h
    · exact absurd h List.not_mem_nil
    · obtain ⟨e, -, hb⟩ := List.mem_filterMap.1 h
      obtain ⟨c, -, rfl⟩ := Option.map_eq_some_iff.1 hb
      rfl

/-- The bindings of one parameter among all bindings. -/
theorem filter_bindings {p : ParamColumns} (h : k.params.get? param = some p) :
    k.bindings.filter (·.param = param) = k.bindingsOf param p := by
  obtain ⟨before, after, hentries⟩ := List.append_of_mem (SortedMap.mem_entries_iff.2 h)
  have hkeys := k.params.nodup_keys
  rw [SortedMap.keys, hentries, List.map_append, List.map_cons, List.nodup_middle,
    List.nodup_cons, List.mem_append, not_or] at hkeys
  have hothers : ∀ entries : List (String × ParamColumns), param ∉ entries.map (·.1) →
      (entries.flatMap fun e => k.bindingsOf e.1 e.2).filter (·.param = param) = [] := by
    intro entries habsent
    refine List.filter_eq_nil_iff.2 fun b hb => ?_
    obtain ⟨e, he, hb⟩ := List.mem_flatMap.1 hb
    have hparam := param_of_mem_bindingsOf hb
    rw [decide_eq_true_iff, hparam]
    exact fun heq => habsent (heq ▸ List.mem_map_of_mem he)
  have hown : (k.bindingsOf param p).filter (·.param = param) = k.bindingsOf param p :=
    List.filter_eq_self.2 fun b hb => decide_eq_true (param_of_mem_bindingsOf hb)
  rw [bindings, hentries, List.flatMap_append, List.flatMap_cons, List.filter_append,
    List.filter_append, hothers _ hkeys.1.1, hothers _ hkeys.1.2, hown, List.nil_append,
    List.append_nil]

/-- The bindings of a simple parameter: one to a best column, as soon as there is a column. -/
def BoundToBest (k : TableKnowledge) (param : String) (columns : List ColumnMatch)
    (bindings : List ColumnBinding) : Prop :=
  (columns = [] ∧ bindings = []) ∨
    ∃ c, k.IsBest columns c ∧ bindings = [⟨param, none, c.table, c.column⟩]

/-- The bindings of a body: all to the table that wins the vote, one for every field that has a
column of that table, to a best one among these. -/
def BoundToWinner (k : TableKnowledge) (param : String)
    (fields : SortedMap String (List ColumnMatch)) (bindings : List ColumnBinding) : Prop :=
  ((∀ columns ∈ fields.values, columns = []) ∧ bindings = []) ∨
    ∃ table, k.WinsVote fields table ∧
      List.Forall₂ (fun e b => ∃ c, k.IsBest (e.2.filter (·.table = table)) c ∧
          b = ⟨param, some e.1, table, c.column⟩)
        (fields.entries.filter fun e => e.2.any (·.table = table)) bindings

theorem boundToBest_bindingsOf :
    k.BoundToBest param columns (k.bindingsOf param (.simple columns)) := by
  rw [bindingsOf]
  cases hbest : k.bestColumn? columns with
  | none => exact .inl ⟨bestColumn?_eq_none_iff.1 hbest, rfl⟩
  | some c => exact .inr ⟨c, isBest_of_bestColumn? hbest, rfl⟩

theorem boundToWinner_bindingsOf :
    k.BoundToWinner param fields (k.bindingsOf param (.body fields)) := by
  rw [bindingsOf]
  cases hmajority : k.majorityTable? fields with
  | none => exact .inl ⟨majorityTable?_eq_none_iff.1 hmajority, rfl⟩
  | some table =>
    refine .inr ⟨table, winsVote_of_majorityTable? hmajority, ?_⟩
    have hfields : ∀ e ∈ fields.entries, e.2.any (·.table = table) =
        ((k.bestColumn? (e.2.filter (·.table = table))).map fun c =>
          (⟨param, some e.1, table, c.column⟩ : ColumnBinding)).isSome := by
      intro e _
      rw [Bool.eq_iff_iff, Option.isSome_map, Option.isSome_iff_ne_none, ne_eq,
        bestColumn?_eq_none_iff, List.filter_eq_nil_iff, List.any_eq_true]
      push Not
      rfl
    refine (forall₂_filterMap hfields).imp fun e b hb => ?_
    obtain ⟨c, hc, rfl⟩ := Option.map_eq_some_iff.1 hb
    exact ⟨c, isBest_of_bestColumn? hc, rfl⟩

end TableKnowledge

theorem Knowledge.bindings_eq {k : Knowledge} {resource : String} :
    k.bindings resource = (k.tablesOf resource).bindings := by
  rw [bindings, tablesOf]
  cases k.tables.get? resource with
  | none => rfl
  | some t => rfl

open TableKnowledge

/-- **Each parameter takes its best columns.** A simple parameter has one binding as soon as it has
a column, and that is to one that no other of its columns beats. The bindings of a body are all to
the table that wins the vote of its fields, one for each field that has a column of that table, to
a column that no other of these beats. -/
theorem parameters_take_their_best_columns (k : Knowledge) (resource : String) :
    let t := k.tablesOf resource
    let own := fun param => (k.bindings resource).filter (·.param = param)
    (∀ b ∈ k.bindings resource, t.params.contains b.param = true) ∧
    (∀ param columns, t.params.get? param = some (.simple columns) →
      t.BoundToBest param columns (own param)) ∧
    (∀ param fields, t.params.get? param = some (.body fields) →
      t.BoundToWinner param fields (own param)) := by
  intro t own
  have hbindings : k.bindings resource = t.bindings := Knowledge.bindings_eq
  refine ⟨fun b hb => ?_, fun param columns hparam => ?_, fun param fields hparam => ?_⟩
  · rw [hbindings] at hb
    obtain ⟨e, he, hb⟩ := List.mem_flatMap.1 hb
    rw [param_of_mem_bindingsOf hb, SortedMap.contains, SortedMap.mem_entries_iff.1 he]
    rfl
  · have hown : own param = _ := (congrArg _ hbindings).trans (filter_bindings hparam)
    rw [hown]
    exact boundToBest_bindingsOf
  · have hown : own param = _ := (congrArg _ hbindings).trans (filter_bindings hparam)
    rw [hown]
    exact boundToWinner_bindingsOf

namespace Sample

/-- The fields of a form, which vote for three tables, once each. -/
def formFields : SortedMap String (List ColumnMatch) :=
  .ofList [("name", [⟨"items", "title", 0.5⟩, ⟨"users", "name", 0.75⟩]),
    ("price", [⟨"items", "price", 0.75⟩]), ("note", [⟨"logs", "note", 0.25⟩])]

/-- A form, and an identifier whose most similar column is on a table that is not confirmed. -/
def formKnowledge : Knowledge :=
  { Knowledge.empty 0.6 true with
    tables := .ofList [("/forms", { TableKnowledge.empty with
      confirmed := .ofList [("forms", true)]
      params := .ofList [("id", .simple [⟨"forms", "id", 0.5⟩, ⟨"users", "id", 0.75⟩]),
        ("body", .body formFields)] })] }

end Sample

open Sample in
theorem forms_are_bound_to_items :
    (formKnowledge.tablesOf "/forms").BoundToWinner "body" formFields
      ((formKnowledge.bindings "/forms").filter (·.param = "body")) ∧
    (formKnowledge.tablesOf "/forms").WinsVote formFields "items" ∧
    formKnowledge.bindings "/forms" =
      [⟨"body", some "name", "items", "title"⟩, ⟨"body", some "price", "items", "price"⟩,
        ⟨"id", none, "forms", "id"⟩] := by
  refine ⟨(parameters_take_their_best_columns formKnowledge "/forms").2.2 _ _ rfl, ?_, ?_⟩
  · exact winsVote_of_majorityTable? (by decide)
  · decide

end RestScenario
