import RestScenario.Format.Database
import RestScenario.Json.Reader
import RestScenario.Learning.Execution
import RestScenario.Proofs.Ordered.Map
import RestScenario.Proofs.Ordered.Set
import RestScenario.Proofs.Text

/-!
# Differences between snapshots

A table gains a row between two snapshots if the later one has a row of it, under whatever spelling of
its name, that agrees with no row of it in the earlier one (`Snapshot.Gains`). What is told of an action
from the snapshots around it should be just that.

A difference looks for rows under the comparison form of each name alone. Snapshots that are put
together table by table and row by row file nothing elsewhere (`Snapshot.IsNormal`), and there the tables
told of are the ones that gained and lost rows (`difference_looks_under_comparison_forms`). A snapshot
that was read keeps the spellings of its document: rows filed under another one are passed over, and no
insertion is told of (`insertion_under_capitals_is_not_seen`).
-/

namespace RestScenario

/-- A comparison form is its own comparison form. -/
theorem tableKey_tableKey (name : String) : tableKey (tableKey name) = tableKey name := by
  simp only [tableKey, Text.lower, Text.trim, String.toList_ofList, Text.trimChars_lowerChars,
    Text.trimChars_trimChars, Text.lowerChars_lowerChars]

namespace Snapshot

variable {s old new : Snapshot} {name table : String} {row : Row}

/-! ## Rows of a table -/

/-- The row is filed under some spelling of the name of the table. -/
def Files (s : Snapshot) (table : String) (row : Row) : Prop :=
  ∃ name rows, s.tables.get? name = some rows ∧ tableKey name = tableKey table ∧ row ∈ rows

/-- The later snapshot files a row of the table that agrees with none of the earlier one. -/
def Gains (before after : Snapshot) (table : String) : Prop :=
  ∃ row, after.Files table row ∧ ∀ earlier, before.Files table earlier → earlier.agrees row = false

theorem mem_rows_iff : row ∈ s.rows table ↔
    ∃ found, s.tables.get? (tableKey table) = some found ∧ row ∈ found := by
  unfold rows rows?
  cases s.tables.get? (tableKey table) <;> simp

theorem rows_congr (h : tableKey name = tableKey table) : s.rows name = s.rows table := by
  simp only [rows, rows?, h]

theorem files_of_mem_rows (h : row ∈ s.rows table) : s.Files table row := by
  obtain ⟨found, hfound, hrow⟩ := mem_rows_iff.1 h
  exact ⟨tableKey table, found, hfound, tableKey_tableKey table, hrow⟩

/-! ## Names in comparison form -/

/-- The snapshot files tables under names in comparison form alone. -/
def IsNormal (s : Snapshot) : Prop := ∀ name rows, s.tables.get? name = some rows → tableKey name = name

theorem isNormal_empty : empty.IsNormal := by
  intro name rows hrows
  simp [empty, EmptyCollection.emptyCollection] at hrows

theorem IsNormal.upsert (h : s.IsNormal) {change : Option (List Row) → List Row} :
    IsNormal ⟨s.tables.upsert (tableKey table) change⟩ := by
  intro name rows hrows
  by_cases hname : name = tableKey table
  · rw [hname, tableKey_tableKey]
  · rw [SortedMap.get?_upsert_of_ne _ hname] at hrows
    exact h name rows hrows

/-- Adding a table keeps the names in comparison form. -/
theorem IsNormal.addTable (h : s.IsNormal) : (s.addTable table).IsNormal := h.upsert

/-- Adding a row keeps the names in comparison form. -/
theorem IsNormal.addRow (h : s.IsNormal) : (s.addRow table row).IsNormal := h.upsert

theorem IsNormal.files_iff (h : s.IsNormal) : s.Files table row ↔ row ∈ s.rows table := by
  refine ⟨?_, files_of_mem_rows⟩
  rintro ⟨name, found, hfound, hname, hrow⟩
  rw [h name found hfound] at hname
  exact mem_rows_iff.2 ⟨found, hname ▸ hfound, hrow⟩

/-! ## Tables that changed -/

theorem hasNewRow_iff {earlier later : List Row} : hasNewRow earlier later = true ↔
    ∃ row ∈ later, ∀ r ∈ earlier, r.agrees row = false := by
  simp [hasNewRow]

/-- A walk over all names of the later snapshot meets a table with a new row under its comparison form. -/
theorem mem_changed_iff {names : SortedSet String}
    (hnames : ∀ name, new.tables.contains name = true → name ∈ names) :
    tableKey table ∈ SortedSet.ofList
        ((names.filter fun t => hasNewRow (old.rows t) (new.rows t)).toList.map tableKey) ↔
      ∃ row ∈ new.rows table, ∀ r ∈ old.rows table, r.agrees row = false := by
  rw [SortedSet.mem_ofList, List.mem_map, ← hasNewRow_iff]
  constructor
  · rintro ⟨name, hname, hkey⟩
    obtain ⟨-, hchanged⟩ := SortedSet.mem_filter.1 hname
    rwa [rows_congr hkey, rows_congr hkey] at hchanged
  · intro hchanged
    obtain ⟨row, hrow, -⟩ := hasNewRow_iff.1 hchanged
    obtain ⟨found, hfound, -⟩ := mem_rows_iff.1 hrow
    have hkey := tableKey_tableKey table
    have hcontains : new.tables.contains (tableKey table) = true := by simp [SortedMap.contains, hfound]
    refine ⟨tableKey table, SortedSet.mem_filter.2 ⟨hnames _ hcontains, ?_⟩, hkey⟩
    rwa [rows_congr hkey, rows_congr hkey]

theorem mem_tableNames : name ∈ tableNames old new ↔
    old.tables.contains name = true ∨ new.tables.contains name = true := by
  rw [tableNames, SortedSet.mem_ofList, List.mem_append, SortedMap.mem_keys_iff,
    SortedMap.mem_keys_iff]

theorem IsNormal.gains_iff (hold : old.IsNormal) (hnew : new.IsNormal) : old.Gains new table ↔
    ∃ row ∈ new.rows table, ∀ r ∈ old.rows table, r.agrees row = false := by
  simp only [Gains, hold.files_iff, hnew.files_iff]

end Snapshot

/-- **Differences look under comparison forms.** From two snapshots a table is told to be inserted into
exactly when, under the comparison form of its name, the later one has a row that agrees with no row which
the earlier one has there; and to be deleted from the other way round. Between snapshots that file nothing
elsewhere these are the tables that gained and lost rows. -/
theorem difference_looks_under_comparison_forms (before after : Snapshot) (table : String) :
    let seen := Execution.ofDifference (Snapshot.difference before after)
    (tableKey table ∈ seen.inserted ↔
        ∃ row ∈ after.rows table, ∀ r ∈ before.rows table, r.agrees row = false) ∧
      (tableKey table ∈ seen.deleted ↔
        ∃ row ∈ before.rows table, ∀ r ∈ after.rows table, r.agrees row = false) ∧
      (before.IsNormal → after.IsNormal →
        (tableKey table ∈ seen.inserted ↔ before.Gains after table) ∧
          (tableKey table ∈ seen.deleted ↔ after.Gains before table)) := by
  intro seen
  have hinserted : tableKey table ∈ seen.inserted ↔
      ∃ row ∈ after.rows table, ∀ r ∈ before.rows table, r.agrees row = false :=
    Snapshot.mem_changed_iff fun _ hname => Snapshot.mem_tableNames.2 (.inr hname)
  have hdeleted : tableKey table ∈ seen.deleted ↔
      ∃ row ∈ before.rows table, ∀ r ∈ after.rows table, r.agrees row = false :=
    Snapshot.mem_changed_iff fun _ hname => Snapshot.mem_tableNames.2 (.inl hname)
  refine ⟨hinserted, hdeleted, fun hbefore hafter => ?_⟩
  rw [hinserted, hdeleted, hbefore.gains_iff hafter, hafter.gains_iff hbefore]
  exact ⟨Iff.rfl, Iff.rfl⟩

namespace Sample

/-- A row with a number. -/
def numberedRow (id : Int) : Row := ⟨.ofList [("id", .int id)]⟩

/-- No order, and user 1. -/
def beforeOrder : Snapshot := (Snapshot.empty.addTable "ORDERS").addRow "users" (numberedRow 1)

/-- Order 7, and no user. -/
def afterOrder : Snapshot := (Snapshot.empty.addTable " Users").addRow "Orders" (numberedRow 7)

/-- A document with order 1, under a name in capitals. -/
def capitals : String :=
  "\x7b\"tables\": \x7b\"ORDERS\": [\x7b\"values\": \x7b\"id\": 1\x7d\x7d]\x7d\x7d"

/-- Order 1, filed under the name in capitals. -/
def capitalsRead : Snapshot := ⟨.ofList [("ORDERS", [numberedRow 1])]⟩

end Sample

open Sample in
/-- Between snapshots that were put together, orders gained a row and users lost one. -/
theorem orders_gained_and_users_lost :
    (beforeOrder.IsNormal ∧ afterOrder.IsNormal) ∧
      beforeOrder.Gains afterOrder "ORDERS" ∧ afterOrder.Gains beforeOrder "Users" := by
  have hbefore : beforeOrder.IsNormal := Snapshot.isNormal_empty.addTable.addRow
  have hafter : afterOrder.IsNormal := Snapshot.isNormal_empty.addTable.addRow
  obtain ⟨-, -, horders⟩ := difference_looks_under_comparison_forms beforeOrder afterOrder "ORDERS"
  obtain ⟨-, -, husers⟩ := difference_looks_under_comparison_forms beforeOrder afterOrder "Users"
  exact ⟨⟨hbefore, hafter⟩, (horders hbefore hafter).1.1 (by decide +kernel),
    (husers hbefore hafter).2.1 (by decide +kernel)⟩

open Sample in
/-- A snapshot that was read files an order under `ORDERS`. Compared with the empty snapshot it has a row
of orders more, and orders are not told to be inserted into. -/
theorem insertion_under_capitals_is_not_seen :
    (Json.read? capitals).bind Snapshot.ofDocument? = some capitalsRead ∧
      tableKey "orders" = "orders" ∧ Snapshot.empty.Gains capitalsRead "orders" ∧
      ¬ "orders" ∈ (Execution.ofDifference (Snapshot.difference .empty capitalsRead)).inserted := by
  have filed : capitalsRead.Files "orders" (numberedRow 1) :=
    ⟨"ORDERS", [numberedRow 1], by decide +kernel, by decide +kernel, by decide⟩
  refine ⟨by decide +kernel, by decide +kernel, ⟨numberedRow 1, filed, ?_⟩, by decide +kernel⟩
  rintro earlier ⟨name, rows, hrows, -⟩
  simp [Snapshot.empty, EmptyCollection.emptyCollection] at hrows

end RestScenario
