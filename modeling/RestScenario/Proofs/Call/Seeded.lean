import RestScenario.Proofs.Call.Following
import RestScenario.Proofs.Sampling.Keyed

/-!
# What seeding does to a call

Seeding gives a call its rows, at most one for each table, and lets its parameters take their values
(`Composing.attached_seedCall`). When values are taken the call is realigned, and it is aligned then
if path parameters lead in its actions; when none are taken, the actions stay as they were
(`Composing.aligned_seedCall`).
-/

namespace RestScenario

/-! ## Binding -/

section Binding

variable {k : Knowledge} {r : Resource} {bindings : List ColumnBinding} {rows : List RowAction}
  {key : Option String} {created : Bool} {a : Action} {p : Param} {c : Call}

/-- A binding that changes a parameter is counted. -/
theorem ColumnBinding.apply_eq_or {b : ColumnBinding} {state : Param × Nat} :
    b.apply rows state = state ∨ state.2 < (b.apply rows state).2 := by
  unfold apply
  dsimp only
  split
  · exact .inl rfl
  · split
    · exact .inr (Nat.lt_succ_self _)
    · split
      · exact .inr (Nat.lt_succ_self _)
      · exact .inl rfl

namespace Knowledge

theorem bindParam_eq_or :
    bindParam bindings rows key p = (p, 0) ∨ 0 < (bindParam bindings rows key p).2 := by
  unfold bindParam
  cases key with
  | none => exact .inl rfl
  | some key =>
    refine List.foldlRecOn (motive := fun state : Param × Nat => state = (p, 0) ∨ 0 < state.2) _ _
      (.inl rfl) fun state h b _ => ?_
    rcases (ColumnBinding.apply_eq_or : b.apply rows state = state ∨ _) with heq | hlt
    · rwa [heq]
    · exact .inr (Nat.zero_lt_of_lt hlt)

theorem bindAction_of_unbound (h : (bindAction bindings rows r created a).2 = 0) :
    (bindAction bindings rows r created a).1 = a := by
  unfold bindAction at h ⊢
  dsimp only at h ⊢
  have hparams : (a.params.map fun p =>
      bindParam bindings rows (boundKey? r created a p) p).map (·.1) = a.params := by
    rw [List.map_map, map_eq_self_iff]
    intro p hp
    rcases (bindParam_eq_or : bindParam bindings rows (boundKey? r created a p) p = (p, 0) ∨ _) with
      heq | hpos
    · exact congrArg Prod.fst heq
    · have hzero := eq_zero_of_mem_of_foldl_add h (List.mem_map_of_mem (List.mem_map_of_mem hp))
      omega
  rw [hparams]

/-- Binding realigns a call or leaves its actions alone. -/
theorem bindCall_cases : (k.bindCall r c).1.actions = c.actions ∨
    ∃ d : Call, d.labels = c.labels ∧ (k.bindCall r c).1 = d.realign := by
  unfold bindCall
  dsimp only
  split
  · exact .inl rfl
  · split
    · refine .inr ⟨_, ?_, rfl⟩
      unfold Call.labels
      dsimp only
      rw [List.map_map, List.map_map]
      exact List.map_congr_left fun a _ => Action.labels_of_blank blank_bindAction
    · rename_i hunbound
      refine .inl ?_
      dsimp only
      rw [List.map_map, map_eq_self_iff]
      intro a ha
      refine bindAction_of_unbound (eq_zero_of_mem_of_foldl_add (Nat.eq_zero_of_not_pos hunbound) ?_)
      exact List.mem_map_of_mem (List.mem_map_of_mem ha)

theorem rows_bindCall : (k.bindCall r c).1.rows = c.rows := by
  unfold bindCall
  dsimp only
  split
  · rfl
  · split
    · exact Scenario.rows_realign
    · rfl

end Knowledge

end Binding

/-! ## One row action per table -/

/-- No two row actions are on one table. -/
def TablesOnce (rows : List RowAction) : Prop := (rows.map RowAction.tableKey).Nodup

theorem firstPerTable_sublist {seen : List String} {rows : List RowAction} :
    (firstPerTable seen rows).Sublist rows := by
  induction rows generalizing seen with
  | nil => exact .slnil
  | cons a rest ih =>
    rw [firstPerTable]
    split
    · exact ih.cons _
    · exact ih.cons_cons _

theorem not_mem_seen_of_mem_firstPerTable {seen : List String} {rows : List RowAction}
    {a : RowAction} (h : a ∈ firstPerTable seen rows) : a.tableKey ∉ seen := by
  induction rows generalizing seen with
  | nil => cases h
  | cons b rest ih =>
    rw [firstPerTable] at h
    split at h
    · exact ih h
    · rename_i hnew
      rcases List.mem_cons.1 h with rfl | hrest
      · exact hnew
      · exact fun hseen => ih hrest (List.mem_cons_of_mem _ hseen)

theorem tablesOnce_firstPerTable {seen : List String} {rows : List RowAction} :
    TablesOnce (firstPerTable seen rows) := by
  induction rows generalizing seen with
  | nil => exact List.nodup_nil
  | cons a rest ih =>
    rw [firstPerTable]
    split
    · exact ih
    · refine List.nodup_cons.2 ⟨fun hmem => ?_, ih⟩
      obtain ⟨b, hb, hkey⟩ := List.mem_map.1 hmem
      exact not_mem_seen_of_mem_firstPerTable hb (by simp [hkey])

theorem tablesOnce_onePerTable {rows : List RowAction} : TablesOnce (onePerTable rows) := by
  unfold onePerTable
  dsimp only
  split
  · exact tablesOnce_firstPerTable
  · unfold TablesOnce
    rw [map_repairReferences fun _ _ => rfl]
    exact tablesOnce_firstPerTable

/-! ## Seeding -/

/-- The call is on the resource of the key, with at most one row action for each table. -/
structure Call.SeededFor (key : String) (c : Call) : Prop where
  resource : c.resource = key
  once : TablesOnce c.rows

variable {c : Call}

namespace Engine

variable {e : Engine} {wanted : Bool} {rows : List RowAction}

theorem attachRows_cases : (e.attachRows c wanted rows).actions = c.actions ∨
    ∃ d : Call, d.labels = c.labels ∧ (e.attachRows c wanted rows).actions = d.realign.actions := by
  unfold attachRows
  split
  · split <;> exact .inl rfl
  · dsimp only
    split
    · rcases Knowledge.bindCall_cases with hsame | ⟨d, hlabels, hrealign⟩
      · exact .inl hsame
      · exact .inr ⟨d, hlabels, congrArg Call.actions hrealign⟩
    · exact .inl rfl

theorem rows_attachRows : (e.attachRows c wanted rows).rows = if rows.isEmpty then c.rows else rows := by
  unfold attachRows
  split
  · split <;> rfl
  · dsimp only
    split
    · exact Knowledge.rows_bindCall
    · rfl

theorem rows_attachRows_of_nil (hrows : c.rows = []) : (e.attachRows c wanted rows).rows = rows := by
  rw [rows_attachRows, hrows]
  cases rows <;> rfl

end Engine

namespace Composing

variable {forced : Bool}

/-! ### Results -/

section Results

variable {e e' : Engine} {rows : List RowAction}

theorem gives_seedCall_of_unwanted
    (h : (!e.settings.involveDb || e.knowledge.schema.tables.isEmpty) = true ∨
      (c.status = .created && (e.knowledge.relatedTables c.resource).isEmpty && !forced) = true) :
    Gives (seedCall c forced) e c e := by
  refine gives_bind.2 ⟨e, e, gives_get.2 ⟨rfl, rfl⟩, ?_⟩
  dsimp only
  split
  · exact gives_pure.2 ⟨rfl, rfl⟩
  · rename_i hdatabase
    rw [if_pos (h.resolve_left hdatabase)]
    exact gives_pure.2 ⟨rfl, rfl⟩

theorem gives_seedCall_of_seedTables
    (hdatabase : (!e.settings.involveDb || e.knowledge.schema.tables.isEmpty) = false)
    (hwanted : (c.status = .created && (e.knowledge.relatedTables c.resource).isEmpty && !forced) =
      false)
    (h : Gives (seedTables forced (e.knowledge.relatedTables c.resource).toList) e rows e') :
    Gives (seedCall c forced) e (e.attachRows c
      (!(e.knowledge.relatedTables c.resource).isEmpty || forced) (onePerTable rows)) e' := by
  refine gives_bind.2 ⟨e, e, gives_get.2 ⟨rfl, rfl⟩, ?_⟩
  dsimp only
  rw [if_neg (by simp [hdatabase]), if_neg (by simp [hwanted])]
  exact gives_bind.2 ⟨rows, e', h, gives_pure.2 ⟨rfl, rfl⟩⟩

end Results

/-! ### Properties -/

/-- Seeding leaves a call as it is, or attaches rows of different tables to it. -/
theorem attached_seedCall : Always (seedCall c forced) fun seeded => seeded = c ∨
    ∃ (e : Engine) (wanted : Bool) (rows : List RowAction),
      seeded = e.attachRows c wanted rows ∧ TablesOnce rows := by
  refine ensures_bind always_any fun e _ => ?_
  dsimp only
  split
  · exact ensures_pure (.inl rfl)
  · split
    · exact ensures_pure (.inl rfl)
    · exact ensures_bind always_any fun rows _ =>
        ensures_pure (.inr ⟨_, _, _, rfl, tablesOnce_onePerTable⟩)

/-- A call without rows gets at most one for each table. -/
theorem tablesOnce_seedCall (hrows : c.rows = []) :
    Always (seedCall c forced) fun seeded => TablesOnce seeded.rows := by
  refine attached_seedCall.imp fun seeded h => ?_
  have none : TablesOnce c.rows := by
    rw [hrows]
    exact List.nodup_nil
  rcases h with rfl | ⟨e, wanted, rows, rfl, honce⟩
  · exact none
  · rw [Engine.rows_attachRows]
    split
    · exact none
    · exact honce

/-- A call that was made for a resource is seeded with at most one row action for each table. -/
theorem seeded_seedCall {key : String} (hc : c.MadeFor key) :
    Always (seedCall c forced) (Call.SeededFor key) := by
  refine (frame_seedCall.and_always (tablesOnce_seedCall hc.rows)).imp ?_
  rintro seeded ⟨hframe, honce⟩
  exact ⟨(Call.resource_of_frame hframe).trans hc.resource, honce⟩

/-- Seeding leaves the actions of a call alone or aligns them, if path parameters lead. -/
theorem aligned_seedCall (hlead : c.PathsLead) : Always (seedCall c forced) fun seeded =>
    seeded.PathsLead ∧ (seeded.actions = c.actions ∨ seeded.Aligned) := by
  refine attached_seedCall.imp fun seeded h => ?_
  rcases h with rfl | ⟨e, wanted, rows, rfl, -⟩
  · exact ⟨hlead, .inl rfl⟩
  · rcases (Engine.attachRows_cases : (e.attachRows c wanted rows).actions = c.actions ∨ _) with
      hsame | ⟨d, hlabels, hrealign⟩
    · have hkept : (e.attachRows c wanted rows).labels = c.labels :=
        congrArg (List.map Action.labels) hsame
      exact ⟨hlead.of_labels hkept, .inl hsame⟩
    · have hd := hlead.of_labels hlabels
      have hlead' := hd.of_labels Call.labels_realign
      exact ⟨hlead'.of_labels (congrArg (List.map Action.labels) hrealign),
        .inr ((Call.aligned_realign hd).of_actions hrealign)⟩

end Composing

end RestScenario
