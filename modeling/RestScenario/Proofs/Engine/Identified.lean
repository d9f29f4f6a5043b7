import RestScenario.Proofs.Engine.Performed
import RestScenario.Proofs.Engine.Refused

/-!
# Numbers identify the rows of a scenario

The row actions of a scenario have different numbers, all below the next one of the engine
(`Scenario.NumberedBelow`): those of a call that comes in are new, and edits and repairs only drop rows,
move them or turn their references. Other work of the engine takes numbers away and gives none back
(`Engine.Use`), so this goes on for as long as the scenario is edited. As references are in order as
well, each that has a target refers to exactly one row action, which comes earlier
(`row_numbers_identify_earlier_rows`).
-/

namespace RestScenario

variable {e e' : Engine} {s s' : Scenario} {first next : Nat}

/-! ## Scenarios with numbered rows -/

/-- The row actions of the scenario have different numbers below the given one. -/
structure Scenario.NumberedBelow (next : Nat) (s : Scenario) : Prop where
  nodup : (s.rows.map RowAction.id).Nodup
  lt : ∀ id ∈ s.rows.map RowAction.id, id < next

namespace Scenario.NumberedBelow

theorem mono (h : s.NumberedBelow first) (hle : first ≤ next) : s.NumberedBelow next :=
  ⟨h.nodup, fun id hid => Nat.lt_of_lt_of_le (h.lt id hid) hle⟩

theorem congr (h : s.NumberedBelow next) (hids : s'.rows.map RowAction.id = s.rows.map RowAction.id) :
    s'.NumberedBelow next :=
  ⟨hids ▸ h.nodup, hids ▸ h.lt⟩

theorem of_numbered {rows : List RowAction} (h : Numbered first next rows)
    (hids : (s.rows.map RowAction.id).Subperm (rows.map RowAction.id)) : s.NumberedBelow next :=
  have ⟨_, hperm, hsub⟩ := hids
  ⟨hperm.nodup_iff.1 (hsub.nodup h.nodup), fun id hid => (h.within id (hids.subset hid)).2⟩

/-- Some calls are dropped, and new calls come in with rows that are numbered from there on. -/
theorem revise {kept new : List Call} (h : s.NumberedBelow first)
    (hsetup : s'.setup = s.setup) (hcalls : s'.calls.Perm (new ++ kept))
    (hkept : kept.Sublist s.calls) (hnew : Numbered first next (new.flatMap (·.rows))) :
    s'.NumberedBelow next := by
  have hold : ((s.setup ++ kept.flatMap (·.rows)).map RowAction.id).Sublist
      (s.rows.map RowAction.id) := by
    rw [Scenario.rows_eq]
    exact ((hkept.flatMap _).append_left _).map _
  have hperm : (s'.rows.map RowAction.id).Perm
      ((s.setup ++ kept.flatMap (·.rows) ++ new.flatMap (·.rows)).map RowAction.id) := by
    rw [Scenario.rows_eq, hsetup, List.append_assoc]
    refine (List.Perm.append_left _ ?_).map _
    refine (hcalls.flatMap_right _).trans ?_
    rw [List.flatMap_append]
    exact List.perm_append_comm
  rw [List.map_append] at hperm
  refine ⟨hperm.nodup_iff.2 (List.nodup_append.2 ⟨hold.nodup h.nodup, hnew.nodup, ?_⟩), ?_⟩
  · -- what is new has the greater numbers
    intro id hid other hother heq
    have hlt := h.lt id (hold.subset hid)
    have hge := (hnew.within other hother).1
    omega
  · intro id hid
    rcases List.mem_append.1 (hperm.mem_iff.1 hid) with hid | hid
    · exact Nat.lt_of_lt_of_le (h.lt id (hold.subset hid)) hnew.le
    · exact (hnew.within id hid).2

end Scenario.NumberedBelow

/-! ## Composed scenarios -/

namespace Composing

theorem numbers_sampleStarts {options : SamplingOptions} {starts : List (String × Start)} :
    Always (sampleStarts options starts) fun calls => ∀ c ∈ calls, c.rows = [] := by
  induction starts with
  | nil => exact ensures_pure (by simp)
  | cons start rest ih =>
    refine ensures_bind made_sampleStart fun result hresult => ?_
    refine ensures_bind ih fun more hmore => ensures_pure fun c hc => ?_
    rcases List.mem_append.1 hc with hc | hc
    · exact (hresult c (Option.mem_toList.1 hc)).rows
    · exact hmore c hc

theorem numbers_adHocScenarios {auth : Option Auth} :
    Numbers (adHocScenarios auth) fun scenarios => scenarios.flatMap (·.rows) := by
  refine numbers_ensureInitialized.bind always_any fun _ _ => ?_
  refine numbers_get.bind always_any fun e _ => ?_
  exact numbers_sample.bind (always_sample numbers_sampleStarts) fun calls => numbers_scenariosOf

theorem numbers_sampleTargets {targets : List String} {budget : Nat} :
    Numbers (sampleTargets targets budget) fun calls => calls.flatMap (·.rows) := by
  induction targets generalizing budget with
  | nil => exact numbers_pure rfl
  | cons target rest ih =>
    unfold sampleTargets
    split
    · exact numbers_pure rfl
    · refine numbers_bind numbers_sampleCall fun sampled _ => ?_
      cases sampled with
      | none => exact ih.after
      | some c => exact triple_bind ih.after fun more => triple_pure fun _ hs => by simpa using hs

theorem map_id_foldl_append_sublist {calls : List Call} :
    ((calls.foldl append s).rows.map RowAction.id).Sublist
      ((s.rows ++ calls.flatMap (·.rows)).map RowAction.id) := by
  induction calls generalizing s with
  | nil => simp
  | cons c rest ih =>
    have step : ((append s c).rows.map RowAction.id).Sublist ((s.rows ++ c.rows).map RowAction.id) := by
      unfold append
      rw [Scenario.rows_eq, Scenario.rows_eq, List.flatMap_append, List.flatMap_singleton,
        ← List.append_assoc]
      simp only [List.map_append]
      exact Call.map_id_bindAfter_sublist.append_left _
    rw [List.foldl_cons, List.flatMap_cons, ← List.append_assoc, List.map_append]
    refine ih.trans ?_
    rw [List.map_append]
    exact step.append_right _

theorem advances_relatedScenario : Numbers relatedScenario fun _ => [] := by
  refine numbers_ensureInitialized.bind always_any fun _ _ => ?_
  refine numbers_get.bind always_any fun e _ => numbers_draw.bind always_any fun chosen _ => ?_
  cases chosen with
  | none => exact numbers_pure rfl
  | some key =>
    refine numbers_sampleCall.advances.bind always_any fun sampled _ => ?_
    cases sampled with
    | none => exact numbers_pure rfl
    | some main =>
      exact numbers_sampleTargets.advances.bind always_any fun front _ => numbers_pure rfl

/-- The rows of a scenario of one call have different numbers. -/
theorem numberedBelow_of_adHocScenarios {auth : Option Auth} {made : List Scenario}
    (h : Gives (adHocScenarios auth) e made e') : ∀ s ∈ made, s.NumberedBelow e'.nextId := by
  intro s hs
  have hissues : e.Issues (made.flatMap (·.rows)) e' := numbers_adHocScenarios.issues h
  refine .of_numbered hissues.numbered (List.Sublist.subperm (.map _ ?_))
  rw [List.flatMap_def]
  exact List.sublist_flatten_of_mem (List.mem_map_of_mem hs)

/-- The rows of a scenario from dependencies have different numbers: those of the calls in front come
after those of the call that was sampled first. -/
theorem numberedBelow_of_relatedScenario (h : Gives relatedScenario e (some s) e') :
    s.NumberedBelow e'.nextId := by
  obtain ⟨key, main, front, e₁, e₂, hdrawn, hmain, hfront, rfl⟩ := steps_of_relatedScenario h
  have hissues : e₁.Issues ([main].flatMap (·.rows) ++ front.flatMap (·.rows)) e' :=
    numbers_sampleTargets.after.of_gives hfront (numbers_sampleCall.issues hmain)
  refine .of_numbered hissues.numbered ?_
  rw [Scenario.map_id_rows_repair]
  refine map_id_foldl_append_sublist.subperm.trans (List.Perm.subperm (.map _ ?_))
  rw [List.flatMap_append]
  show (front.flatMap (·.rows) ++ [main].flatMap (·.rows)).Perm _
  exact List.perm_append_comm

end Composing

/-! ## Edited scenarios -/

theorem Engine.Issues.bindAt {c : Call} {position : Nat} (h : e.Issues c.rows e') :
    e.Issues ([c.bindAt s position].flatMap (·.rows)) e' := by
  rw [List.flatMap_singleton]
  exact h.sublist Call.map_id_bindAfter_sublist

/-- An edit drops calls or moves them, and the rows of a call that comes in are new. -/
theorem Mutator.Performed.calls {m : Mutator} {ed ed' : Editor} {edit : Edit} {positions : List Nat}
    (h : Performed m ed ed' edit positions) :
    ∃ kept new, ed'.scenario.setup = ed.scenario.setup ∧
      ed'.scenario.calls.Perm (new ++ kept) ∧ kept.Sublist ed.scenario.calls ∧
      ed.engine.Issues (new.flatMap (·.rows)) ed'.engine := by
  cases h with
  | add hproposed hadd =>
    obtain ⟨hsetup, hcalls⟩ := Scenario.addCall_perm hadd
    have hissues := Editing.numbers_proposeCall.issues hproposed
    exact ⟨_, [_], hsetup, hcalls, .refl _, .bindAt (by simpa using hissues)⟩
  | delete hdrawn hremove =>
    obtain ⟨hsetup, hcalls⟩ := Scenario.removeCall_sublist hremove
    exact ⟨_, [], hsetup, .refl _, hcalls, Composing.numbers_draw.issues hdrawn⟩
  | swap hne hdrawn hswap =>
    obtain ⟨hsetup, hcalls⟩ := Scenario.swapCalls_perm hswap
    exact ⟨_, [], hsetup, hcalls, .refl _, Composing.numbers_draw.issues hdrawn⟩
  | replace hplace hold hdrawn hsampled hreplace =>
    obtain ⟨hsetup, hcalls⟩ := Scenario.replaceCall_perm hold hreplace
    have hissues := ((Editing.numbers_choosePosition.issues hplace).trans
      (Composing.numbers_draw.issues hdrawn)).trans (Composing.numbers_sampleAnyCall.issues hsampled)
    exact ⟨_, [_], hsetup, hcalls, List.eraseIdx_sublist _ _, .bindAt (by simpa using hissues)⟩
  | modify hplace hold hsampled hseeded hreplace =>
    obtain ⟨hsetup, hcalls⟩ := Scenario.replaceCall_perm hold hreplace
    have hmade := Editing.made_resample.of_gives hsampled
    have hissues := ((Editing.numbers_choosePosition.issues hplace).trans
      (Editing.numbers_resample.issues hsampled)).trans
      ((Composing.numbers_seedCall hmade.rows).issues hseeded)
    exact ⟨_, [_], hsetup, hcalls, List.eraseIdx_sublist _ _, .bindAt (by simpa using hissues)⟩

/-! ## Engines in use -/

/-- Something that an engine may be used for, beside the scenario that is looked at. -/
inductive Engine.Use where
  | load (c : Catalogue) (database : Option Database)
  /-- What is known changes in any way. -/
  | inform (knowledge : Knowledge)
  | adHoc (auth : Option Auth)
  | related
  | sampleCall (key : String) (create : Bool) (budget : Nat) (forced : Bool)
    (front : Option (List Call))
  | proposeUnused (s : Scenario)
  | proposeDependency (s : Scenario)
  | seedCall (c : Call) (forced : Bool)
  | serve (m : Mutator) (request : Request) (s : Scenario)
  /-- An edit is made without looking whether it applies. -/
  | perform (m : Mutator) (edit : Edit) (s : Scenario)

namespace Engine.Use

/-- The engine after the use, whatever came of it. -/
def run (e : Engine) : Use → Engine
  | load c database => ((e.load c database).toOption).getD e
  | inform knowledge => { e with knowledge }
  | adHoc auth => ((Composing.adHocScenarios auth).run e).2
  | related => (Composing.relatedScenario.run e).2
  | sampleCall key create budget forced front =>
    ((Composing.sampleCall key create budget forced front).run e).2
  | proposeUnused s => ((Composing.proposeUnused s).run e).2
  | proposeDependency s => ((Composing.proposeDependency s).run e).2
  | seedCall c forced => ((Composing.seedCall c forced).run e).2
  | serve m request s => ((m.serve request).run ⟨e, s⟩).2.engine
  | perform m edit s => ((m.perform edit).run ⟨e, s⟩).2.engine

/-- No use gives numbers back. -/
theorem nextId_le (use : Use) : e.nextId ≤ (use.run e).nextId := by
  cases use with
  | load c database =>
    show e.nextId ≤ ((e.load c database).toOption.getD e).nextId
    cases hload : e.load c database with
    | error failure => exact Nat.le_refl _
    | ok e' =>
      obtain ⟨m, -, hload⟩ := bind_eq_ok.1 hload
      obtain rfl := Except.ok.inj hload
      exact Nat.le_refl _
  | inform knowledge => exact Nat.le_refl _
  | adHoc auth => exact Composing.numbers_adHocScenarios.run.nextId
  | related => exact Composing.advances_relatedScenario.run.nextId
  | sampleCall key create budget forced front => exact Composing.numbers_sampleCall.run.nextId
  | proposeUnused s => exact Composing.numbers_proposeUnused.run.nextId
  | proposeDependency s => exact Composing.numbers_proposeDependency.run.nextId
  | seedCall c forced => exact Composing.advances_seedCall.run.nextId
  | serve m request s =>
    have spared : Spares e s (m.serve request) _ := Mutator.spares_serve
    exact (spared.advances ⟨e, s⟩).nextId
  | perform m edit s =>
    have spared : Spares e s (m.perform edit) _ := Mutator.spares_perform
    exact (spared.advances ⟨e, s⟩).nextId

end Engine.Use

/-- The engine has made the scenario, it may have edited it since, and it may have been put to other
uses in between. -/
inductive Scenario.Followed : Engine → Scenario → Prop
  | adHoc {e e' : Engine} {made : List Scenario} {s : Scenario} (auth : Option Auth)
    (hmade : Gives (Composing.adHocScenarios auth) e made e') (hs : s ∈ made) : Followed e' s
  | related {e e' : Engine} {s : Scenario}
    (hmade : Gives Composing.relatedScenario e (some s) e') : Followed e' s
  /-- The request may also fail or not apply. -/
  | mutated {e : Engine} {s : Scenario} (m : Mutator) (request : Request) (h : Followed e s) :
    Followed ((m.serve request).run ⟨e, s⟩).2.engine ((m.serve request).run ⟨e, s⟩).2.scenario
  | used {e : Engine} {s : Scenario} (use : Engine.Use) (h : Followed e s) : Followed (use.run e) s

/-- An edit that was made leaves different numbers below the next one. -/
theorem Mutator.Performed.numberedBelow {m : Mutator} {ed ed' : Editor} {edit : Edit}
    {positions : List Nat} (h : Performed m ed ed' edit positions)
    (hs : ed.scenario.NumberedBelow ed.engine.nextId) :
    ed'.scenario.NumberedBelow ed'.engine.nextId := by
  obtain ⟨kept, new, hsetup, hcalls, hkept, hissues⟩ := h.calls
  exact hs.revise hsetup hcalls hkept hissues.numbered

/-- A request that was applied made its edit with an engine that may have gone forward. -/
theorem Mutator.advances_of_applied {m : Mutator} {request : Request} {ed ed' : Editor} {edit : Edit}
    {positions : List Nat} (h : Gives (m.serve request) ed (.applied edit positions) ed') :
    ∃ e edited, ed.engine.Advances e ∧
      Performed m ⟨e, ed.scenario⟩ ⟨ed'.engine, edited⟩ edit positions ∧
      ed'.scenario = edited.repair := by
  obtain ⟨e, edited, hdrawn, hperformed, hrepair⟩ := performed_of_applied h
  refine ⟨e, edited, ?_, hperformed, hrepair⟩
  rcases hdrawn with rfl | ⟨kinds, hdrawn⟩
  · exact .refl
  · exact (Composing.numbers_draw.issues hdrawn).toAdvances

/-- A request leaves different numbers below the next one, whatever comes of it. -/
theorem Mutator.numberedBelow_serve {m : Mutator} {request : Request} (ed : Editor)
    (h : ed.scenario.NumberedBelow ed.engine.nextId) :
    ((m.serve request).run ed).2.scenario.NumberedBelow
      ((m.serve request).run ed).2.engine.nextId := by
  rcases m.applied_or_kept request ed with ⟨edit, positions, hserved⟩ | hkept
  · obtain ⟨e₁, edited, hadvances, hperformed, hrepair⟩ := advances_of_applied hserved
    refine (hperformed.numberedBelow (h.mono hadvances.nextId)).congr ?_
    rw [hrepair, Scenario.map_id_rows_repair]
  · rw [hkept]
    have spared : Spares ed.engine ed.scenario (m.serve request) _ := spares_serve
    exact h.mono (spared.advances ed).nextId

namespace Scenario.Followed

theorem numberedBelow (h : Followed e s) : s.NumberedBelow e.nextId := by
  induction h with
  | adHoc auth hmade hs => exact Composing.numberedBelow_of_adHocScenarios hmade _ hs
  | related hmade => exact Composing.numberedBelow_of_relatedScenario hmade
  | @mutated e s m request _ ih => exact Mutator.numberedBelow_serve ⟨e, s⟩ ih
  | used use _ ih => exact ih.mono use.nextId_le

theorem referencesInOrder (h : Followed e s) : s.referencesInOrder = true := by
  induction h with
  | adHoc auth hmade hs => exact Composing.referencesInOrder_of_adHocScenarios hmade _ hs
  | related hmade => exact Composing.referencesInOrder_of_relatedScenario hmade
  | @mutated e s m request _ ih =>
    rcases m.applied_or_kept request ⟨e, s⟩ with ⟨edit, positions, hserved⟩ | hkept
    · obtain ⟨_, edited, -, -, hrepair⟩ := Mutator.performed_of_applied hserved
      rw [hrepair]
      exact edited.referencesInOrder_repair
    · rw [hkept]
      exact ih
  | used use _ ih => exact ih

end Scenario.Followed

/-- **Row numbers identify row actions.** Follow a scenario that an engine has made through any
requests to mutators, also such that fail, and let the engine be put to any other use in between. The
row actions of the scenario then have different numbers. So each reference that has a target refers to
exactly one of them, one that comes earlier and is on the table that the reference names. -/
theorem row_numbers_identify_earlier_rows (h : s.Followed e) :
    (s.rows.map RowAction.id).Nodup ∧
    ∀ (front back : List RowAction) (row : RowAction), s.rows = front ++ row :: back →
      ∀ r ∈ row.references, ∀ t ∈ r.target,
        ∃ a ∈ front, a.tableKey = tableKey r.targetTable ∧ s.rows.filter (·.id = t) = [a] := by
  have hnodup := h.numberedBelow.nodup
  refine ⟨hnodup, fun front back row hrows r hr t ht => ?_⟩
  obtain ⟨a, ha, rfl, htable⟩ :=
    Scenario.exists_of_referencesInOrder h.referencesInOrder hrows hr ht
  have hmem : a ∈ s.rows := hrows ▸ List.mem_append_left _ ha
  exact ⟨a, ha, htable, filter_eq_singleton_of_nodup_map hnodup hmem⟩

namespace Sample

/-- Listing all orders. -/
def listOrders : Action := ⟨.get, ⟨[.literal "orders"]⟩, [], false, none, none⟩

/-- The table of orders. Each is the order of a user. -/
def orders : Table := ⟨"orders", [⟨"id", .integer, true⟩], [⟨["user"], "users"⟩]⟩

/-- An engine that lists orders, over empty tables. -/
def desk : Engine :=
  ((({ engine with settings := .standard } : Engine).load ⟨[listOrders]⟩
    (some ⟨⟨[users, orders]⟩, .empty⟩)).toOption).getD engine

/-- A fresh order of a user. -/
def freshOrder (number : Nat) (id : Int) (user : Nat) : RowAction :=
  ⟨number, "orders", .insert, userRow id, [⟨["user"], "users", some user⟩]⟩

/-- The listing of orders, before it is seeded. -/
def unseededOrders : Call :=
  .unseeded (.unvisited "GET" true 1) (.ofAction "/orders" listOrders) [listOrders] .notExisting

/-- Sampling the calls to start with. -/
def sampleStarting : Composing (List Call) :=
  .sample (Composing.sampleStarts (desk.options desk.settings.maxTestSize)
    (Composing.allStarts desk.model))

/-- The engine after it has sampled the listing. -/
def busyDesk : Engine := (sampleStarting.run desk).2

/-- Orders are listed, after a user and an order of this user were inserted. -/
def ordersListed : Scenario :=
  (Scenario.ofCalls [busyDesk.attachRows unseededOrders true [freshUser 3 1, freshOrder 4 1 3]]
    .smartWithoutDependencies).repair

end Sample

open Sample in
theorem plan_orders : InsertionPlan.ofTable ⟨[users, orders]⟩ "orders" =
    .row orders (.insert ⟨["user"], "users"⟩ (.row users .none) .none) := by
  have foundOrders : Schema.table? ⟨[users, orders]⟩ "orders" = some orders := by decide +kernel
  have foundUsers : Schema.table? ⟨[users, orders]⟩ "users" = some users := by decide +kernel
  unfold InsertionPlan.ofTable
  rw [InsertionPlan.layOut_eq foundOrders, show orders.foreignKeys = [⟨["user"], "users"⟩] from rfl,
    InsertionPlan.layOutTargets, dif_neg (by decide +kernel), InsertionPlan.layOut_eq foundUsers,
    show users.foreignKeys = [] from rfl, InsertionPlan.layOutTargets, InsertionPlan.layOutTargets]

open Sample in
theorem gives_ordersListed : ∃ e', Gives (Composing.adHocScenarios none) desk [ordersListed] e' := by
  have initialized : Gives Composing.ensureInitialized desk () desk :=
    Composing.gives_ensureInitialized_of (by decide +kernel)
  have sampled : Gives sampleStarting desk [unseededOrders] busyDesk :=
    gives_of_toOption (by decide +kernel)
  have schema : busyDesk.knowledge.schema = ⟨[users, orders]⟩ := by decide +kernel
  obtain ⟨e', built⟩ : ∃ e', Gives
      (Composing.build (Building.insertWithReferences busyDesk.knowledge.schema "orders"))
      busyDesk (.ok [freshUser 3 1, freshOrder 4 1 3]) e' := by
    rw [schema]
    refine ⟨_, Prod.ext ?_ rfl⟩
    show (Except.ok ((Building.insertWithReferences ⟨[users, orders]⟩ "orders").run _).1 :
      Except Error _) = _
    unfold Building.insertWithReferences
    rw [plan_orders]
    decide +kernel
  have seeded := Composing.gives_seedCall_of_inserted (c := unseededOrders) (by decide +kernel)
    (by decide +kernel) (by decide +kernel) built
  rw [show onePerTable [freshUser 3 1, freshOrder 4 1 3] = [freshUser 3 1, freshOrder 4 1 3] by
    decide +kernel] at seeded
  have scenario : Gives (Composing.scenarioOf none unseededOrders) busyDesk ordersListed e' :=
    gives_bind.2 ⟨_, e', seeded, gives_pure.2 ⟨rfl, rfl⟩⟩
  have all : Gives (Composing.scenariosOf none [unseededOrders]) busyDesk [ordersListed] e' :=
    gives_bind.2 ⟨_, e', scenario, gives_bind.2 ⟨[], e', gives_pure.2 ⟨rfl, rfl⟩,
      gives_pure.2 ⟨rfl, rfl⟩⟩⟩
  exact ⟨e', gives_bind.2 ⟨_, _, initialized, gives_bind.2 ⟨_, _, gives_get.2 ⟨rfl, rfl⟩,
    gives_bind.2 ⟨_, _, sampled, all⟩⟩⟩⟩

open Sample in
/-- The order refers to the one user with number 3, also after the engine has made scenarios again. -/
theorem listed_order_refers_to_one_user :
    ∃ e, ordersListed.Followed e ∧ ordersListed.rows = [freshUser 3 1, freshOrder 4 1 3] ∧
      (ordersListed.rows.map RowAction.id).Nodup ∧
      ∃ a ∈ [freshUser 3 1], a.tableKey = tableKey "users" ∧
        ordersListed.rows.filter (·.id = 3) = [a] := by
  obtain ⟨e', made⟩ := gives_ordersListed
  have followed : ordersListed.Followed e' := .adHoc none made List.mem_cons_self
  have used := followed.used (.adHoc none)
  have rows : ordersListed.rows = [freshUser 3 1, freshOrder 4 1 3] := by decide +kernel
  obtain ⟨nodup, refers⟩ := row_numbers_identify_earlier_rows used
  exact ⟨_, used, rows, nodup, refers [freshUser 3 1] [] (freshOrder 4 1 3) rows
    ⟨["user"], "users", some 3⟩ List.mem_cons_self 3 rfl⟩

end RestScenario
