import RestScenario.Proofs.Database.Numbering
import RestScenario.Proofs.Engine.Unfailing

/-!
# Numbers that an engine gives out

Whatever comes of it, an engine at work keeps its settings and its knowledge, and it only goes forward
in the numbers of row actions (`Engine.Advances`). The rows that it makes on the way are numbered in
the part that was gone through (`Engine.Issues`, `Composing.Numbers`). This holds of all that an engine
does for scenarios, since rows come only from the seeding of sampled calls, which have none, and a call
that follows others can only lose some.
-/

namespace RestScenario

variable {rows : List RowAction}

theorem map_id_onePerTable_sublist :
    ((onePerTable rows).map RowAction.id).Sublist (rows.map RowAction.id) := by
  unfold onePerTable
  dsimp only
  split
  · exact firstPerTable_sublist.map _
  · rw [map_repairReferences fun _ _ => rfl]
    exact firstPerTable_sublist.map _

theorem Call.map_id_bindAfter_sublist {c : Call} {front : List Call} {frontRows : List RowAction} :
    ((c.bindAfter front frontRows).rows.map RowAction.id).Sublist (c.rows.map RowAction.id) := by
  rw [Call.map_rows_bindAfter fun _ _ => rfl]
  exact List.filter_sublist.map _

namespace Scenario

variable {s : Scenario}

/-- A repair leaves every row action its number. -/
theorem map_id_rows_repair : s.repair.rows.map RowAction.id = s.rows.map RowAction.id := by
  rw [rows_eq, rows_eq, List.map_append, List.map_append, map_rows_repair fun _ _ => rfl]
  exact congrArg (· ++ _) (map_repairReferences fun _ _ => rfl)

end Scenario

/-! ## Engines that go forward -/

/-- The second engine is the first after some work: it has the settings and the knowledge of the first,
and no number has been given back. -/
structure Engine.Advances (e e' : Engine) : Prop where
  settings : e'.settings = e.settings
  knowledge : e'.knowledge = e.knowledge
  nextId : e.nextId ≤ e'.nextId

/-- The engine has gone forward, and the rows are numbered on the way. -/
structure Engine.Issues (e : Engine) (rows : List RowAction) (e' : Engine) : Prop
    extends e.Advances e' where
  numbered : Numbered e.nextId e'.nextId rows

namespace Engine

variable {e e' e'' : Engine} {rows' : List RowAction}

theorem Advances.refl : e.Advances e := ⟨rfl, rfl, Nat.le_refl _⟩

theorem Advances.trans (h : e.Advances e') (h' : e'.Advances e'') : e.Advances e'' :=
  ⟨h'.settings.trans h.settings, h'.knowledge.trans h.knowledge, Nat.le_trans h.nextId h'.nextId⟩

theorem Advances.issues (h : e.Advances e') : e.Issues [] e' := ⟨h, .nil h.nextId⟩

theorem Issues.trans (h : e.Issues rows e') (h' : e'.Issues rows' e'') :
    e.Issues (rows ++ rows') e'' :=
  ⟨h.toAdvances.trans h'.toAdvances, h.numbered.append h'.numbered⟩

theorem Issues.sublist (h : e.Issues rows e')
    (hsub : (rows'.map RowAction.id).Sublist (rows.map RowAction.id)) : e.Issues rows' e' :=
  ⟨h.toAdvances, h.numbered.sublist hsub⟩

end Engine

/-! ## Computations -/

namespace Composing

variable {α β : Type} {x : Composing α} {f : α → Composing β} {made : α → List RowAction}
  {made' : β → List RowAction} {front : List RowAction} {e : Engine} {P : α → Prop}

/-- Whatever comes of the computation, the engine goes forward; the rows that are made are numbered on
the way. -/
def Numbers (x : Composing α) (made : α → List RowAction) : Prop :=
  ∀ e, Triple (e = ·) x (fun a => e.Issues (made a)) e.Advances

/-- What is made after other rows is numbered after them. -/
theorem Numbers.after (h : Numbers x made) :
    Triple (e.Issues front) x (fun a => e.Issues (front ++ made a)) e.Advances := by
  intro e₁ he
  obtain ⟨hok, herror⟩ := h e₁ e₁ rfl
  exact ⟨fun a ha => he.trans (hok a ha), fun failure hfailure =>
    he.toAdvances.trans (herror failure hfailure)⟩

/-- What is given was numbered on the way. -/
theorem Numbers.issues {e' : Engine} {a : α} (h : Numbers x made) (hx : Gives x e a e') :
    e.Issues (made a) e' := (h e).of_gives hx rfl

/-- The engine has gone forward, whatever came of the computation. -/
theorem Numbers.run (h : Numbers x made) : e.Advances (x.run e).2 :=
  (h e).run (fun _ _ hissues => hissues.toAdvances) (fun _ hadvances => hadvances) rfl

theorem Numbers.imp (h : Numbers x made) {kept : α → List RowAction}
    (hkept : ∀ a, ((kept a).map RowAction.id).Sublist ((made a).map RowAction.id)) :
    Numbers x kept :=
  fun e s hs => ⟨fun a ha => ((h e s hs).1 a ha).sublist (hkept a), (h e s hs).2⟩

theorem Numbers.advances (h : Numbers x made) : Numbers x fun _ => [] :=
  h.imp fun _ => List.nil_sublist _

theorem numbers_pure {a : α} (h : made a = []) : Numbers (pure a) made :=
  fun _ => triple_pure fun _ hs => hs ▸ h ▸ Engine.Advances.refl.issues

theorem numbers_throw {error : Error} : Numbers (throw error) made := by
  intro e s hs
  refine ⟨fun a ha => ?_, fun _ _ => hs ▸ .refl⟩
  have ha : (Except.error error : Except Error α) = .ok a := ha
  cases ha

theorem numbers_get : Numbers (getThe Engine) fun _ => [] :=
  fun _ _ hs => ⟨fun _ _ => hs ▸ Engine.Advances.refl.issues, fun _ he => nomatch he⟩

/-- The rows of the first step stay in front of what the second makes. -/
theorem numbers_bind (hx : Numbers x made)
    (hf : ∀ (a : α) (e : Engine),
      Triple (e.Issues (made a)) (f a) (fun b => e.Issues (made' b)) e.Advances) :
    Numbers (x >>= f) made' :=
  fun e => triple_bind (hx e) fun a => hf a e

/-- Steps that make no rows may come first. -/
theorem Numbers.bind (hx : Numbers x fun _ => []) (hP : Always x P)
    (hf : ∀ a, P a → Numbers (f a) made') : Numbers (x >>= f) made' := by
  intro e
  have first : Triple (e = ·) x (fun a e' => e.Issues [] e' ∧ P a) e.Advances :=
    fun s hs => ⟨fun a ha => ⟨(hx e s hs).1 a ha, ((hP s trivial).1 a ha).2⟩, (hx e s hs).2⟩
  exact triple_bind first fun a s hs => (hf a hs.2).after s hs.1

theorem Numbers.map {g : α → β} (hx : Numbers x made)
    (hg : ∀ a, ((made' (g a)).map RowAction.id).Sublist ((made a).map RowAction.id)) :
    Numbers (g <$> x) made' := by
  rw [← bind_pure_comp]
  exact numbers_bind hx fun a _ => triple_pure fun _ hs => hs.sublist (hg a)

theorem numbers_sample {x : Sampled α} : Numbers (sample x) fun _ => [] :=
  fun e _ hs => hs ▸ ⟨fun _ _ => Engine.Advances.issues (e := e) ⟨rfl, rfl, Nat.le_refl _⟩,
    fun _ _ => ⟨rfl, rfl, Nat.le_refl _⟩⟩

theorem numbers_draw {d : Random.Draw α} : Numbers (draw d) fun _ => [] := numbers_sample

/-- A failure to build makes no rows. -/
theorem numbers_build {x : Building α} (h : Building.Numbers x made) :
    Numbers (build x) fun r => (r.toOption.map made).getD [] := by
  rintro e _ rfl
  obtain ⟨hok, herror⟩ := h e.nextId ⟨e.sampler.source, e.nextId⟩ rfl
  refine ⟨fun r hr => ?_, fun _ he => nomatch he⟩
  obtain rfl : (x.run ⟨e.sampler.source, e.nextId⟩).1 = r := Except.ok.inj hr
  have moved : ∀ {rows}, Numbered e.nextId (x.run ⟨e.sampler.source, e.nextId⟩).2.nextId rows →
      e.Issues rows ((build x).run e).2 := fun hrows => ⟨⟨rfl, rfl, hrows.le⟩, hrows⟩
  cases hrun : (x.run ⟨e.sampler.source, e.nextId⟩).1 with
  | ok a => exact moved (hok a hrun)
  | error failure => exact moved (.nil (herror failure hrun))

theorem numbers_ensureInitialized : Numbers ensureInitialized fun _ => [] := by
  refine numbers_get.bind always_any fun e _ => ?_
  split
  · exact numbers_throw
  · exact numbers_pure rfl

/-! ## Seeded calls -/

theorem numbers_chooseRow {table : String} {forced : Bool} :
    Numbers (chooseRow table forced) fun _ => [] := by
  refine numbers_get.bind always_any fun e _ => ?_
  dsimp only
  split
  · exact numbers_pure rfl
  · refine numbers_draw.bind always_any fun selects _ => ?_
    split
    · exact numbers_draw
    · exact numbers_pure rfl

theorem numbers_seedTable {table : String} {forced : Bool} :
    Numbers (seedTable table forced) id := by
  refine numbers_chooseRow.bind always_any fun row _ => ?_
  cases row with
  | some row =>
    refine numbers_bind (numbers_build Building.numbers_selectExisting) fun a e => ?_
    exact triple_pure fun _ hs => by cases a <;> exact hs
  | none =>
    refine numbers_get.bind always_any fun e _ => ?_
    refine numbers_bind (numbers_build Building.numbers_insertWithReferences) fun a e => ?_
    exact triple_pure fun _ hs => by cases a <;> exact hs

theorem numbers_seedTables {forced : Bool} {tables : List String} :
    Numbers (seedTables forced tables) id := by
  induction tables with
  | nil => exact numbers_pure rfl
  | cons table rest ih =>
    refine numbers_bind numbers_seedTable fun rows e => ?_
    exact triple_bind ih.after fun more => triple_pure fun _ hs => hs

/-- A call without rows is seeded with rows of new numbers. -/
theorem numbers_seedCall {c : Call} {forced : Bool} (h : c.rows = []) :
    Numbers (seedCall c forced) (·.rows) := by
  refine numbers_get.bind always_any fun e _ => ?_
  dsimp only
  split
  · exact numbers_pure h
  · split
    · exact numbers_pure h
    · refine numbers_bind numbers_seedTables fun rows _ => triple_pure fun _ hs => ?_
      refine hs.sublist ?_
      rw [Engine.rows_attachRows]
      split
      · exact h ▸ List.nil_sublist _
      · exact map_id_onePerTable_sublist

/-- Seeding goes forward with any call. -/
theorem advances_seedCall {c : Call} {forced : Bool} : Numbers (seedCall c forced) fun _ => [] := by
  refine numbers_get.bind always_any fun e _ => ?_
  dsimp only
  split
  · exact numbers_pure rfl
  · split
    · exact numbers_pure rfl
    · exact numbers_bind numbers_seedTables fun rows _ =>
        triple_pure fun _ hs => hs.toAdvances.issues

/-! ## Proposed calls -/

variable {key : String} {budget : Nat} {s : Scenario}

theorem numbers_sampleCall {create forced : Bool} {front : Option (List Call)} :
    Numbers (sampleCall key create budget forced front) fun result =>
      result.toList.flatMap (·.rows) := by
  refine numbers_ensureInitialized.bind always_any fun _ _ => ?_
  refine numbers_get.bind always_any fun e _ => ?_
  extract_lets options afterCreating
  have hcreated : ∀ creating, MadeResult key creating → Numbers (afterCreating creating) fun result =>
      result.toList.flatMap (·.rows) := by
    intro creating hcreating
    unfold afterCreating
    extract_lets afterSampling
    have hsampled : ∀ sampled, MadeResult key sampled → Numbers (afterSampling sampled) fun result =>
        result.toList.flatMap (·.rows) := by
      intro sampled hsampled
      cases sampled with
      | none => exact numbers_pure rfl
      | some call =>
        refine numbers_bind (numbers_seedCall (madeResult_some.1 hsampled).rows) fun seeded _ => ?_
        cases front with
        | none => exact triple_pure fun _ hs => by simpa using hs
        | some calls => exact triple_pure fun _ hs => by simpa using hs.sublist Call.map_id_bindAfter_sublist
    cases creating with
    | none => exact numbers_sample.bind (always_sample Sampler.made_sampleIndependent) hsampled
    | some call => exact (numbers_pure rfl).bind (ensures_pure hcreating) hsampled
  split
  · refine numbers_sample.bind always_any fun r _ => ?_
    exact numbers_sample.bind (always_sample Sampler.made_generateOneOf) hcreated
  · exact (numbers_pure rfl).bind (ensures_pure madeResult_none) hcreated

theorem numbers_sampleAnyCall :
    Numbers (sampleAnyCall key budget) fun result => result.toList.flatMap (·.rows) := by
  refine numbers_get.bind always_any fun e _ => ?_
  refine numbers_sample.bind (always_sample Sampler.made_sampleAny) fun sampled hsampled => ?_
  cases sampled with
  | none => exact numbers_pure rfl
  | some c => exact (numbers_seedCall (madeResult_some.1 hsampled).rows).map fun seeded => by simp

theorem numbers_proposeUnused :
    Numbers (proposeUnused s) fun result => result.toList.flatMap (·.rows) := by
  refine numbers_get.bind always_any fun e _ => numbers_draw.bind always_any fun chosen _ => ?_
  cases chosen with
  | none => exact numbers_pure rfl
  | some key => exact numbers_sampleAnyCall

theorem numbers_drawLeads {leads : List Lead} : Numbers (drawLeads leads) fun _ => [] := by
  induction leads with
  | nil => exact numbers_pure rfl
  | cons lead rest ih =>
    refine numbers_draw.bind always_any fun passes _ => ih.bind always_any fun more _ => ?_
    exact numbers_pure rfl

theorem numbers_proposeDependency :
    Numbers (proposeDependency s) fun result => result.toList.flatMap (·.1.rows) := by
  refine numbers_get.bind always_any fun e _ => numbers_drawLeads.bind always_any fun passed _ => ?_
  refine numbers_draw.bind always_any fun chosen _ => ?_
  cases chosen with
  | none => exact numbers_pure rfl
  | some lead =>
    refine numbers_bind numbers_sampleCall fun sampled _ => ?_
    cases sampled with
    | none => exact triple_pure fun _ hs => hs
    | some call => exact triple_pure fun _ hs => by simpa using hs

/-! ## Composed scenarios -/

theorem numbers_scenarioOf {auth : Option Auth} {c : Call} (h : c.rows = []) :
    Numbers (scenarioOf auth c) (·.rows) := by
  refine numbers_bind (numbers_seedCall h) fun seeded _ => triple_pure fun _ hs => ?_
  refine hs.sublist ?_
  rw [Scenario.map_id_rows_repair, Scenario.rows_eq]
  simp [Scenario.ofCalls]

theorem numbers_scenariosOf {auth : Option Auth} {calls : List Call}
    (h : ∀ c ∈ calls, c.rows = []) :
    Numbers (scenariosOf auth calls) fun scenarios => scenarios.flatMap (·.rows) := by
  induction calls with
  | nil => exact numbers_pure rfl
  | cons c rest ih =>
    obtain ⟨hc, hrest⟩ := List.forall_mem_cons.1 h
    refine numbers_bind (numbers_scenarioOf hc) fun s _ => ?_
    exact triple_bind (ih hrest).after fun more => triple_pure fun _ hs => hs

end Composing

namespace Editing

variable {s : Scenario}

theorem numbers_choosePosition : Composing.Numbers (choosePosition s) fun _ => [] := by
  unfold choosePosition
  split
  · exact Composing.numbers_pure rfl
  · exact Composing.numbers_draw.map fun _ => .slnil

theorem numbers_resample {c : Call} {budget : Nat} :
    Composing.Numbers (resample c budget) fun _ => [] := by
  refine Composing.numbers_get.bind always_any fun e _ => ?_
  refine Composing.numbers_sample.bind always_any fun sampled _ => ?_
  cases sampled with
  | none => exact Composing.numbers_sample
  | some other => exact Composing.numbers_pure rfl

theorem numbers_proposeCall {heuristics : Float} :
    Composing.Numbers (proposeCall s heuristics) fun result => result.toList.flatMap (·.rows) := by
  unfold proposeCall
  extract_lets afterProposed afterGuided
  have hproposed : ∀ (proposed : Option (Call × String)) (e : Engine), Triple
      (e.Issues (proposed.toList.flatMap (·.1.rows))) (afterProposed proposed)
      (fun result => e.Issues (result.toList.flatMap (·.rows))) e.Advances := by
    intro proposed e
    cases proposed with
    | none => exact Composing.numbers_proposeUnused.after
    | some found => exact triple_pure fun _ hs => by simpa using hs
  have hguided : ∀ guided, Composing.Numbers (afterGuided guided) fun result =>
      result.toList.flatMap (·.rows) := by
    intro guided
    unfold afterGuided
    split
    · exact Composing.numbers_bind Composing.numbers_proposeDependency hproposed
    · exact Composing.numbers_bind (Composing.numbers_pure rfl) hproposed
  split
  · exact Composing.numbers_draw.bind always_any fun guided _ => hguided guided
  · exact (Composing.numbers_pure rfl).bind always_any fun guided _ => hguided guided

end Editing

end RestScenario
