import RestScenario.Engine.Composition
import RestScenario.Engine.Mutation
import RestScenario.Proofs.Sampling.Keyed
import RestScenario.Proofs.Sampling.Sampled

/-!
# Composed calls and scenarios

An engine at work keeps its settings and its model in use (`Engine.InUse`). Seeding a call with rows
changes no outline, so what holds of sampled calls holds of all calls that an engine proposes: they
are sound, and each keeps to the budget it was proposed for. A scenario made from dependencies gives
the budget that is left to each further call, so it keeps to the budget as a whole
(`Composing.ensures_relatedScenario`).
-/

namespace RestScenario

/-- The model of the engine is that of the catalogue, after some visits, and its scenarios may hold
so many actions. -/
structure Engine.InUse (c : Catalogue) (budget : Nat) (e : Engine) : Prop where
  sampler : e.sampler.InUse c
  budget_eq : e.settings.maxTestSize = budget

theorem Engine.InUse.remainingBudget_eq {c : Catalogue} {budget : Nat} {e : Engine} {s : Scenario}
    (he : e.InUse c budget) : e.remainingBudget s = budget - s.size :=
  congrArg (· - s.size) he.budget_eq

/-- An engine that takes up a catalogue has its model in use. -/
theorem Engine.inUse_of_load {e e' : Engine} {c : Catalogue} {database : Option Database}
    (h : e.load c database = .ok e') : e'.InUse c e.settings.maxTestSize := by
  obtain ⟨m, hmodel, h⟩ := bind_eq_ok.1 h
  obtain rfl := Except.ok.inj h
  exact ⟨ResourceModel.inUse_of_ofCatalogue hmodel, rfl⟩

namespace Composing

variable {c : Catalogue} {size budget : Nat} {key : String} {call : Call} {s : Scenario}

/-! ## Steps of an engine -/

theorem ensures_sample {α : Type} {x : Sampled α} {P : α → Prop}
    (h : Ensures (Sampler.InUse c) x P) : Ensures (Engine.InUse c size) (sample x) P := by
  intro e he
  obtain ⟨hok, herror⟩ := h e.sampler he.sampler
  refine ⟨fun a ha => ?_, fun failure hfailure => ?_⟩
  · obtain ⟨hsampler, hP⟩ := hok a ha
    exact ⟨⟨hsampler, he.budget_eq⟩, hP⟩
  · exact ⟨herror failure hfailure, he.budget_eq⟩

theorem ensures_draw {α : Type} {d : Random.Draw α} :
    Ensures (Engine.InUse c size) (draw d) fun _ => True :=
  (ensures_sample Sampler.ensures_drawAlways).imp fun _ _ => trivial

theorem gives_draw {α : Type} {d : Random.Draw α} {e e' : Engine} {a : α}
    (h : Gives (draw d) e a e') : ∃ source, (d.run source).1 = a := by
  obtain ⟨hdrawn, -⟩ := Prod.mk.inj h
  exact ⟨e.sampler.source, Except.ok.inj hdrawn⟩

theorem ensures_build {α : Type} {x : Building α} :
    Ensures (Engine.InUse c size) (build x) fun _ => True :=
  fun _ he => ⟨fun _ _ => ⟨⟨he.sampler, he.budget_eq⟩, trivial⟩, fun _ hfailure => nomatch hfailure⟩

theorem ensures_ensureInitialized :
    Ensures (Engine.InUse c size) ensureInitialized fun _ => True := by
  refine ensures_bind ensures_get fun e _ => ?_
  split
  · exact ensures_throw
  · exact ensures_pure trivial

/-! ## Seeded calls -/

section Seeding

variable {I : Engine → Prop} {table : String} {tables : List String} {forced : Bool}
  (hdraw : ∀ (α : Type) (d : Random.Draw α), Ensures I (draw d) fun _ => True)
  (hbuild : ∀ (α : Type) (x : Building α), Ensures I (build x) fun _ => True)

include hdraw

theorem succeeds_chooseRow_of : Succeeds I (chooseRow table forced) fun _ => True := by
  have hdrawn : ∀ {α : Type} {d : Random.Draw α}, Succeeds I (draw d) fun _ => True :=
    fun e he => ⟨(hdraw _ _ e he).1, fun _ hfailure => nomatch hfailure⟩
  refine succeeds_bind succeeds_get fun e _ => ?_
  dsimp only
  split
  · exact succeeds_pure trivial
  · refine succeeds_bind hdrawn fun selects _ => ?_
    split
    · exact hdrawn
    · exact succeeds_pure trivial

include hbuild

/-- Tables that have no row to select and cannot be inserted into give no rows, and no failure. -/
theorem succeeds_seedTables_of : Succeeds I (seedTables forced tables) fun _ => True := by
  have hbuilt : ∀ {α : Type} {x : Building α}, Succeeds I (build x) fun _ => True :=
    fun e he => ⟨(hbuild _ _ e he).1, fun _ hfailure => nomatch hfailure⟩
  induction tables with
  | nil => exact succeeds_pure trivial
  | cons table rest ih =>
    have first : Succeeds I (seedTable table forced) fun _ => True := by
      refine succeeds_bind (succeeds_chooseRow_of hdraw) fun row _ => ?_
      cases row with
      | none =>
        refine succeeds_bind succeeds_get fun e _ => ?_
        exact succeeds_bind hbuilt fun _ _ => succeeds_pure trivial
      | some row => exact succeeds_bind hbuilt fun _ _ => succeeds_pure trivial
    exact succeeds_bind first fun _ _ => succeeds_bind ih fun _ _ => succeeds_pure trivial

/-- **Seeding never fails**, and it keeps what drawing and building keep. It changes no frame. -/
theorem succeeds_seedCall_of :
    Succeeds I (seedCall call forced) fun seeded => seeded.frame = call.frame := by
  have seeds : Succeeds I (seedCall call forced) fun _ => True := by
    refine succeeds_bind succeeds_get fun e _ => ?_
    dsimp only
    split
    · exact succeeds_pure trivial
    · split
      · exact succeeds_pure trivial
      · exact succeeds_bind (succeeds_seedTables_of hdraw hbuild) fun rows _ => succeeds_pure trivial
  exact (seeds.and_always frame_seedCall).imp fun _ h => h.2

end Seeding

/-- Seeding changes no outline. -/
theorem ensures_seedCall {forced : Bool} :
    Ensures (Engine.InUse c size) (seedCall call forced) fun seeded =>
      seeded.outline = call.outline :=
  (succeeds_seedCall_of (fun _ _ => ensures_draw) fun _ _ => ensures_build).ensures.imp
    fun _ h => Call.outline_of_frame h

/-! ## Proposed calls -/

theorem fits_sampleCall {create forced : Bool} {front : Option (List Call)} :
    Ensures (Engine.InUse c size) (sampleCall key create budget forced front)
      (FitResult c budget) := by
  refine ensures_bind ensures_ensureInitialized fun _ _ => ?_
  refine ensures_bind ensures_get fun e _ => ?_
  -- what is done after the creating templates, and then after the independent ones
  extract_lets options afterCreating
  have hcreated : ∀ creating : Option Call, FitResult c budget creating →
      Ensures (Engine.InUse c size) (afterCreating creating) (FitResult c budget) := by
    intro creating hcreating
    unfold afterCreating
    extract_lets afterSampling
    have hsampled : ∀ sampled : Option Call, FitResult c budget sampled →
        Ensures (Engine.InUse c size) (afterSampling sampled) (FitResult c budget) := by
      intro sampled hsampled
      cases sampled with
      | none => exact ensures_pure fitResult_none
      | some call =>
        rw [fitResult_some] at hsampled
        refine ensures_bind ensures_seedCall fun seeded hseeded => ?_
        cases front with
        | none => exact ensures_pure (fitResult_some.2 (hseeded ▸ hsampled))
        | some calls =>
          have hbound : (seeded.bindAfter calls []).outline = call.outline :=
            (Call.outline_of_frame Call.frame_bindAfter).trans hseeded
          exact ensures_pure (fitResult_some.2 (hbound ▸ hsampled))
    cases creating with
    | none => exact ensures_bind (ensures_sample (Sampler.fits_sampleIndependent rfl)) hsampled
    | some call => exact ensures_bind (ensures_pure hcreating) hsampled
  split
  · refine ensures_bind (ensures_sample Sampler.ensures_resource) fun r hr => ?_
    obtain ⟨m, hm, hr⟩ := hr
    refine ensures_bind (ensures_sample (Sampler.fits_generateOneOf rfl ?_)) hcreated
    refine hm.one_le_budget hr fun t ht => ?_
    simp only [Resource.creatingTemplates, List.mem_filter, decide_eq_true_eq] at ht
    exact ⟨ht.1.1, ht.2⟩
  · exact ensures_bind (ensures_pure fitResult_none) hcreated

theorem fits_sampleAnyCall :
    Ensures (Engine.InUse c size) (sampleAnyCall key budget) (FitResult c budget) := by
  refine ensures_bind ensures_get fun e _ => ?_
  refine ensures_bind (ensures_sample (Sampler.fits_sampleAny rfl)) fun sampled hsampled => ?_
  cases sampled with
  | none => exact ensures_pure fitResult_none
  | some call =>
    rw [fitResult_some] at hsampled
    exact ensures_map ensures_seedCall fun seeded hseeded =>
      fitResult_some.2 (hseeded ▸ hsampled)

/-- A call on an unused resource keeps to what is left of the scenario. -/
theorem fits_proposeUnused :
    Ensures (Engine.InUse c size) (proposeUnused s) (FitResult c (size - s.size)) := by
  refine ensures_bind ensures_get fun e he => ?_
  refine ensures_bind ensures_draw fun chosen _ => ?_
  cases chosen with
  | none => exact ensures_pure fitResult_none
  | some key =>
    rw [← he.remainingBudget_eq]
    exact fits_sampleAnyCall

theorem ensures_drawLeads {leads : List Lead} :
    Ensures (Engine.InUse c size) (drawLeads leads) fun _ => True := by
  induction leads with
  | nil => exact ensures_pure trivial
  | cons lead rest ih =>
    exact ensures_bind ensures_draw fun _ _ => ensures_bind ih fun _ _ => ensures_pure trivial

theorem fits_proposeDependency :
    Ensures (Engine.InUse c size) (proposeDependency s) fun proposed =>
      FitResult c (size - s.size) (proposed.map (·.1)) := by
  refine ensures_bind ensures_get fun e he => ?_
  refine ensures_bind ensures_drawLeads fun passed _ => ?_
  refine ensures_bind ensures_draw fun chosen _ => ?_
  cases chosen with
  | none => exact ensures_pure fitResult_none
  | some lead =>
    refine ensures_bind fits_sampleCall fun sampled hsampled => ?_
    cases sampled with
    | none => exact ensures_pure fitResult_none
    | some call =>
      rw [he.remainingBudget_eq] at hsampled
      exact ensures_pure hsampled

/-! ## Composed scenarios -/

/-- Any way to start gives a sound call; only the creation chain may exceed the budget. -/
theorem sound_sampleStarts {options : SamplingOptions} {starts : List (String × Start)} :
    Ensures (Sampler.InUse c) (sampleStarts options starts) fun calls =>
      ∀ call ∈ calls, SoundOutline c call.outline := by
  induction starts with
  | nil => exact ensures_pure (by simp)
  | cons start rest ih =>
    obtain ⟨key, start⟩ := start
    have first : Ensures (Sampler.InUse c) (sampleStart key options start) fun result =>
        ∀ call ∈ result, SoundOutline c call.outline := by
      cases start with
      | action v =>
        exact ensures_map Sampler.fits_sampleVerb fun call hcall => by
          simpa using hcall.toSoundOutline
      | creation =>
        refine ensures_bind Sampler.sound_generatePostChain fun chain hchain => ensures_pure ?_
        intro call hcall
        exact hchain call (Option.mem_filter_iff.1 hcall).1
      | template name =>
        exact ensures_map Sampler.sound_generate fun call hcall => by simpa using hcall
    refine ensures_bind first fun result hresult => ensures_bind ih fun more hmore => ensures_pure ?_
    intro call hcall
    rcases List.mem_append.1 hcall with hcall | hcall
    · exact hresult call (Option.mem_toList.1 hcall)
    · exact hmore call hcall

theorem ensures_scenarioOf {auth : Option Auth} :
    Ensures (Engine.InUse c size) (scenarioOf auth call) fun s => s.outlines = [call.outline] := by
  refine ensures_bind ensures_seedCall fun seeded hseeded => ensures_pure ?_
  have hauth : Call.outline { call with actions := call.actions.map fun a => { a with auth } } =
      call.outline := by
    unfold Call.outline
    rw [List.map_map]
    rfl
  rw [Scenario.outlines_repair, ← hauth, ← hseeded]
  rfl

theorem ensures_scenariosOf {auth : Option Auth} {calls : List Call} :
    Ensures (Engine.InUse c size) (scenariosOf auth calls) fun scenarios =>
      ∀ s ∈ scenarios, ∃ call ∈ calls, s.outlines = [call.outline] := by
  induction calls with
  | nil => exact ensures_pure (by simp)
  | cons call rest ih =>
    refine ensures_bind ensures_scenarioOf fun s hs => ?_
    refine ensures_bind ih fun more hmore => ensures_pure ?_
    refine List.forall_mem_cons.2 ⟨⟨call, List.mem_cons_self, hs⟩, fun s' hs' => ?_⟩
    obtain ⟨call', hmem, houtlines⟩ := hmore s' hs'
    exact ⟨call', List.mem_cons_of_mem _ hmem, houtlines⟩

/-- Calls in scenarios of one call are sound. -/
theorem sound_adHocScenarios {auth : Option Auth} :
    Ensures (Engine.InUse c size) (adHocScenarios auth) fun scenarios =>
      ∀ s ∈ scenarios, ∀ actions ∈ s.outlines, SoundOutline c actions := by
  refine ensures_bind ensures_ensureInitialized fun _ _ => ?_
  refine ensures_bind ensures_get fun e _ => ?_
  refine ensures_bind (ensures_sample sound_sampleStarts) fun calls hcalls => ?_
  refine ensures_scenariosOf.imp fun scenarios hscenarios s hs actions hactions => ?_
  obtain ⟨call, hmem, houtlines⟩ := hscenarios s hs
  rw [houtlines, List.mem_singleton] at hactions
  exact hactions ▸ hcalls call hmem

/-- Calls on targets share a budget. -/
theorem ensures_sampleTargets {targets : List String} :
    Ensures (Engine.InUse c size) (sampleTargets targets budget) fun calls =>
      (∀ call ∈ calls, SoundOutline c call.outline) ∧
        (calls.map Call.outline).flatten.length ≤ budget := by
  induction targets generalizing budget with
  | nil => exact ensures_pure (by simp)
  | cons target rest ih =>
    unfold sampleTargets
    split
    · exact ensures_pure (by simp)
    · refine ensures_bind fits_sampleCall fun sampled hsampled => ?_
      cases sampled with
      | none => exact ih
      | some call =>
        rw [fitResult_some] at hsampled
        have hlength := hsampled.length_le
        refine ensures_bind ih fun more hmore => ensures_pure ?_
        obtain ⟨hsound, hmore⟩ := hmore
        refine ⟨List.forall_mem_cons.2 ⟨hsampled.toSoundOutline, hsound⟩, ?_⟩
        rw [List.map_cons, List.flatten_cons, List.length_append]
        rw [Call.length_outline] at hlength ⊢
        omega

/-- What following other calls does not change is that of the calls, in order. -/
theorem map_calls_foldl_append {β : Type} {f : Call → β} {calls : List Call}
    (hf : ∀ (s : Scenario) (position : Nat) (call : Call), f (call.bindAt s position) = f call) :
    (calls.foldl append s).calls.map f = s.calls.map f ++ calls.map f := by
  induction calls generalizing s with
  | nil => simp
  | cons call rest ih =>
    have step : (append s call).calls.map f = s.calls.map f ++ [f call] := by
      unfold append
      rw [List.map_append, List.map_singleton, hf]
    rw [List.foldl_cons, ih, step, List.map_cons, List.append_assoc, List.singleton_append]

theorem outlines_foldl_append {calls : List Call} :
    (calls.foldl append s).outlines = s.outlines ++ calls.map Call.outline :=
  map_calls_foldl_append fun _ _ _ => Call.outline_of_frame Call.frame_bindAt

/-- **A scenario made from dependencies keeps to the budget**, and its calls are sound. -/
theorem ensures_relatedScenario :
    Ensures (Engine.InUse c size) relatedScenario fun result =>
      ∀ s ∈ result, (∀ actions ∈ s.outlines, SoundOutline c actions) ∧ s.size ≤ size := by
  refine ensures_bind ensures_ensureInitialized fun _ _ => ?_
  refine ensures_bind ensures_get fun e he => ?_
  refine ensures_bind ensures_draw fun chosen _ => ?_
  cases chosen with
  | none => exact ensures_pure (by simp)
  | some key =>
    refine ensures_bind fits_sampleCall fun sampled hsampled => ?_
    cases sampled with
    | none => exact ensures_pure (by simp)
    | some main =>
      have hmain : FitOutline c e.settings.maxTestSize main.outline := fitResult_some.1 hsampled
      refine ensures_bind ensures_sampleTargets fun front hfront => ensures_pure ?_
      obtain ⟨hsound, hfront⟩ := hfront
      rintro _ ⟨⟩
      have houtlines : ((front ++ [main]).foldl append
          (Scenario.ofCalls [] .smartWithDependencies)).repair.outlines =
          front.map Call.outline ++ [main.outline] := by
        rw [Scenario.outlines_repair, outlines_foldl_append, List.map_append]
        rfl
      rw [Scenario.size_eq_length_flatten, houtlines]
      refine ⟨?_, ?_⟩
      · intro actions hactions
        rcases List.mem_append.1 hactions with hactions | hactions
        · obtain ⟨call, hmem, rfl⟩ := List.mem_map.1 hactions
          exact hsound call hmem
        · exact List.mem_singleton.1 hactions ▸ hmain.toSoundOutline
      · have hlength := hmain.length_le
        rw [List.flatten_append, List.length_append, List.flatten_singleton, ← he.budget_eq]
        rw [Call.length_outline] at hlength ⊢
        omega

end Composing

namespace Editing

variable {c : Catalogue} {size budget : Nat} {call : Call} {s : Scenario}

/-- A call to add keeps to what is left of the scenario. -/
theorem fits_proposeCall {heuristics : Float} :
    Ensures (Engine.InUse c size) (proposeCall s heuristics) (FitResult c (size - s.size)) := by
  unfold proposeCall
  extract_lets afterDependency afterChance
  have hdependency : ∀ proposed : Option (Call × String),
      FitResult c (size - s.size) (proposed.map (·.1)) →
      Ensures (Engine.InUse c size) (afterDependency proposed) (FitResult c (size - s.size)) := by
    intro proposed hproposed
    cases proposed with
    | none => exact Composing.fits_proposeUnused
    | some p => exact ensures_pure hproposed
  have hchance : ∀ guided : Bool, Ensures (Engine.InUse c size) (afterChance guided)
      (FitResult c (size - s.size)) := by
    intro guided
    unfold afterChance
    split
    · exact ensures_bind Composing.fits_proposeDependency hdependency
    · exact ensures_bind (ensures_pure fitResult_none) hdependency
  split
  · exact ensures_bind Composing.ensures_draw fun guided _ => hchance guided
  · have unguided : Ensures (Engine.InUse c size) (pure false : Composing Bool) fun _ => True :=
      ensures_pure trivial
    exact ensures_bind unguided fun guided _ => hchance guided

/-- A call that is sampled anew keeps to the budget, except for a single action. -/
theorem fits_resample :
    Ensures (Engine.InUse c size) (resample call budget) fun other =>
      FitOutline c (max budget 1) other.outline := by
  refine ensures_bind ensures_get fun e _ => ?_
  refine ensures_bind (Composing.ensures_sample (Sampler.fits_generateAnother rfl))
    fun sampled hsampled => ?_
  cases sampled with
  | none =>
    refine (Composing.ensures_sample Sampler.fits_sampleOneAction).imp fun other hother => ?_
    exact hother.mono (Nat.le_max_right _ _)
  | some other => exact ensures_pure ((fitResult_some.1 hsampled).mono (Nat.le_max_left _ _))

end Editing

end RestScenario
