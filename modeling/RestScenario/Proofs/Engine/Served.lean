import RestScenario.Proofs.Engine.Unfailing

/-!
# Requests are served

An editor whose engine is ready serves every request on a scenario that is on resources of the
catalogue (`Mutator.completes_serve`). Edits ask for positions of the scenario alone, so there is a
call at each of them, and what comes in is a call that the engine proposed. The scenario that is left
is on resources of the catalogue again.
-/

namespace RestScenario

/-! ## Positions -/

namespace Scenario

variable {known : String → Prop} {s : Scenario} {position a b : Nat} {call : Call}

theorem within_iff : s.Within known ↔ ∀ call ∈ s.calls, known call.resource := List.forall_mem_map

theorem exists_call (h : position < s.length) :
    ∃ old ∈ s.calls, s.call position = .ok old := by
  refine ⟨s.calls[position], List.getElem_mem h, ?_⟩
  unfold Scenario.call
  rw [List.getElem?_eq_getElem h]

theorem exists_removeCall (hs : s.Within known) (h : position < s.length) :
    ∃ s', s.removeCall position = .ok s' ∧ s'.Within known := by
  obtain ⟨old, -, hold⟩ := exists_call h
  refine ⟨_, bind_eq_ok.2 ⟨old, hold, rfl⟩, within_iff.2 fun call hcall => ?_⟩
  exact hs.of_mem (List.mem_of_mem_eraseIdx hcall)

theorem exists_replaceCall (hs : s.Within known) (h : position < s.length)
    (hcall : known call.resource) :
    ∃ s', s.replaceCall position call = .ok s' ∧ s'.Within known := by
  obtain ⟨old, -, hold⟩ := exists_call h
  refine ⟨_, bind_eq_ok.2 ⟨old, hold, rfl⟩, within_iff.2 fun other hother => ?_⟩
  rcases List.mem_or_eq_of_mem_set hother with hbefore | rfl
  · exact hs.of_mem hbefore
  · exact hcall

theorem exists_addCall (hs : s.Within known) (h : position ≤ s.length)
    (hcall : known call.resource) : ∃ s', s.addCall position call = .ok s' ∧ s'.Within known := by
  refine ⟨_, if_neg (Nat.not_lt.2 h), within_iff.2 fun other hother => ?_⟩
  rcases List.eq_or_mem_of_mem_insertIdx hother with rfl | hbefore
  · exact hcall
  · exact hs.of_mem hbefore

theorem exists_swapCalls (hs : s.Within known) (ha : a < s.length) (hb : b < s.length) :
    ∃ s', s.swapCalls a b = .ok s' ∧ s'.Within known := by
  obtain ⟨x, hx, hcalla⟩ := exists_call ha
  obtain ⟨y, hy, hcallb⟩ := exists_call hb
  refine ⟨_, bind_eq_ok.2 ⟨x, hcalla, bind_eq_ok.2 ⟨y, hcallb, rfl⟩⟩, within_iff.2 ?_⟩
  intro other hother
  rcases List.mem_or_eq_of_mem_set hother with hother | rfl
  · rcases List.mem_or_eq_of_mem_set hother with hbefore | rfl
    · exact hs.of_mem hbefore
    · exact hs.of_mem hy
  · exact hs.of_mem hx

theorem lt_of_mem_deletablePositions (h : position ∈ s.deletablePositions) :
    position < s.length := by
  obtain ⟨⟨call, _⟩, hmem, rfl⟩ := List.mem_map.1 h
  exact List.snd_lt_of_mem_zipIdx (List.mem_filter.1 hmem).1

end Scenario

/-! ## Editors at work -/

section Editors

variable (c : Catalogue) (s : Scenario)

/-- The editor has an engine that is ready and the scenario in hand. -/
structure Editor.Holds (ed : Editor) : Prop where
  engine : ed.engine.Ready c
  scenario_eq : ed.scenario = s

/-- The engine is ready, and the calls of the scenario are on resources of the catalogue. -/
structure Editor.Ready (ed : Editor) : Prop where
  engine : ed.engine.Ready c
  scenario : ed.scenario.Within c.HasResource

/-- From the scenario in hand the computation gives a result and leaves a scenario on resources of
the catalogue. -/
def Completes {α : Type} (x : Editing α) : Prop :=
  Triple (Editor.Holds c s) x (fun _ => Editor.Ready c) fun _ => False

end Editors

variable {c : Catalogue} {s : Scenario} {α β : Type}

namespace Completes

theorem pure {a : α} (hs : s.Within c.HasResource) : Completes c s (Pure.pure a : Editing α) :=
  triple_pure fun _ h => ⟨h.engine, h.scenario_eq ▸ hs⟩

/-- Steps that leave the scenario as it is may come first. -/
theorem bind {x : Editing α} {f : α → Editing β} {P : α → Prop}
    (hx : Succeeds (Editor.Holds c s) x P) (hf : ∀ a, P a → Completes c s (f a)) :
    Completes c s (x >>= f) :=
  triple_bind hx fun a ed h => hf a h.2 ed h.1

/-- Results may be wrapped up afterwards. -/
theorem bind_pure {x : Editing α} {g : α → β} (hx : Completes c s x) :
    Completes c s (x >>= fun a => Pure.pure (g a)) :=
  triple_bind hx fun _ => triple_pure fun _ h => h

end Completes

namespace Editing

theorem succeeds_compose {x : Composing α} {P : α → Prop}
    (h : Succeeds (Engine.Ready c) x P) : Succeeds (Editor.Holds c s) (compose x) P := by
  intro ed hed
  obtain ⟨hok, herror⟩ := h ed.engine hed.engine
  refine ⟨fun a ha => ?_, herror⟩
  obtain ⟨hengine, hP⟩ := hok a ha
  exact ⟨⟨hengine, hed.scenario_eq⟩, hP⟩

theorem succeeds_scenario : Succeeds (Editor.Holds c s) scenario fun held => held = s :=
  succeeds_bind succeeds_get fun _ hed => succeeds_pure hed.scenario_eq

theorem completes_revise {change : Scenario → Except Error Scenario}
    (h : ∃ s', change s = .ok s' ∧ s'.Within c.HasResource) : Completes c s (revise change) := by
  intro ed hed
  obtain ⟨hengine, rfl⟩ := hed
  obtain ⟨s', hs', hwithin⟩ := h
  show (∀ a, (revise change ed).1 = .ok a → Editor.Ready c (revise change ed).2) ∧
    ∀ e, (revise change ed).1 = .error e → False
  unfold revise
  rw [hs']
  exact ⟨fun _ _ => ⟨hengine, hwithin⟩, fun _ he => nomatch he⟩

/-! ## The edits -/

variable (hs : s.Within c.HasResource)
include hs

theorem completes_delete : Completes c s delete := by
  refine .bind succeeds_scenario fun held hheld => ?_
  subst hheld
  split
  · exact .pure hs
  · refine .bind (succeeds_compose Composing.succeeds_draw) fun chosen hchosen => ?_
    obtain ⟨source, hchosen⟩ := hchosen
    cases chosen with
    | none => exact .pure hs
    | some position =>
      have hlt := Scenario.lt_of_mem_deletablePositions (Random.mem_of_choose hchosen)
      exact .bind_pure (completes_revise (Scenario.exists_removeCall hs hlt))

theorem completes_swap : Completes c s swap := by
  refine .bind succeeds_scenario fun held hheld => ?_
  subst hheld
  split
  · exact .pure hs
  · rename_i hlength
    refine .bind (succeeds_compose Composing.succeeds_draw) fun chosen hchosen => ?_
    obtain ⟨source, rfl⟩ := hchosen
    have hlt : ((Random.chooseTwo held.length).run source).1.1 < held.length ∧
        ((Random.chooseTwo held.length).run source).1.2 < held.length :=
      Random.lt_of_chooseTwo (Nat.le_of_not_lt hlength)
    obtain ⟨ha, hb⟩ := hlt
    refine .bind_pure (completes_revise (Scenario.exists_swapCalls hs ?_ ?_))
    · exact Nat.lt_of_le_of_lt (Nat.min_le_left _ _) ha
    · exact Nat.max_lt.2 ⟨ha, hb⟩

omit hs in
theorem succeeds_choosePosition :
    Succeeds (Engine.Ready c) (choosePosition s) fun chosen =>
      ∀ position ∈ chosen, position < s.length := by
  unfold choosePosition
  split
  · exact succeeds_pure (by simp)
  · rename_i hcalls
    refine succeeds_map Composing.succeeds_draw fun position hposition => ?_
    obtain ⟨source, rfl⟩ := hposition
    rintro _ ⟨⟩
    exact Random.below64_lt (List.length_pos_iff.2 (by simpa using hcalls))

theorem completes_replace : Completes c s replace := by
  refine .bind succeeds_scenario fun held hheld => ?_
  subst hheld
  refine .bind (succeeds_compose succeeds_choosePosition) fun chosen hchosen => ?_
  cases chosen with
  | none => exact .pure hs
  | some position =>
    have hlt := hchosen position rfl
    obtain ⟨old, -, hold⟩ := Scenario.exists_call hlt
    refine .bind (succeeds_liftExcept hold) fun old _ => .bind succeeds_get fun ed hed => ?_
    refine .bind (succeeds_compose Composing.succeeds_draw) fun key hkey => ?_
    obtain ⟨source, hkey⟩ := hkey
    cases key with
    | none => exact .pure hs
    | some key =>
      have hmem := (List.mem_filter.1 (Random.mem_of_choose hkey)).1
      have hoffered := hed.engine.sampler.hasResource_of_mem_sampleableKeys hmem
      refine .bind (succeeds_compose (Composing.succeeds_sampleAnyCall hoffered))
        fun sampled hsampled => ?_
      cases sampled with
      | none => exact .pure hs
      | some new =>
        have hnew : c.HasResource (new.bindAt held position).resource := by
          rw [Call.resource_of_frame Call.frame_bindAt]
          exact hsampled new rfl
        exact .bind_pure (completes_revise (Scenario.exists_replaceCall hs hlt hnew))

omit hs in
theorem succeeds_resample {call : Call} {budget : Nat} (h : c.HasResource call.resource) :
    Succeeds (Engine.Ready c) (resample call budget) fun other => c.HasResource other.resource := by
  suffices Succeeds (Engine.Ready c) (resample call budget) fun _ => True from
    (this.and_always keyed_resample).imp fun other hother => by
      have hkey : other.resource = call.resource := hother.2
      exact hkey ▸ h
  refine succeeds_bind succeeds_get fun e _ => ?_
  refine succeeds_bind (Composing.succeeds_sample (Sampler.succeeds_generateAnother h))
    fun sampled _ => ?_
  cases sampled with
  | none => exact Composing.succeeds_sample (Sampler.succeeds_sampleOneAction h)
  | some other => exact succeeds_pure trivial

theorem completes_modify : Completes c s modify := by
  refine .bind succeeds_scenario fun held hheld => ?_
  subst hheld
  refine .bind (succeeds_compose succeeds_choosePosition) fun chosen hchosen => ?_
  cases chosen with
  | none => exact .pure hs
  | some position =>
    have hlt := hchosen position rfl
    obtain ⟨old, hmem, hold⟩ := Scenario.exists_call hlt
    refine .bind (succeeds_liftExcept hold) ?_
    rintro _ rfl
    refine .bind succeeds_get fun ed hed => ?_
    refine .bind (succeeds_compose (succeeds_resample (hs.of_mem hmem))) fun other hother => ?_
    refine .bind (succeeds_compose Composing.succeeds_seedCall) fun seeded hseeded => ?_
    have hnew : c.HasResource (seeded.bindAt held position).resource := by
      rw [Call.resource_of_frame Call.frame_bindAt, hseeded]
      exact hother
    exact .bind_pure (completes_revise (Scenario.exists_replaceCall hs hlt hnew))

omit hs in
theorem succeeds_proposeCall {heuristics : Float} :
    Succeeds (Engine.Ready c) (proposeCall s heuristics) (OfferedResult c) := by
  unfold proposeCall
  extract_lets afterProposed afterGuided
  have hproposed : ∀ proposed : Option (Call × String), OfferedResult c (proposed.map (·.1)) →
      Succeeds (Engine.Ready c) (afterProposed proposed) (OfferedResult c) := by
    intro proposed h
    cases proposed with
    | none => exact Composing.succeeds_proposeUnused
    | some found => exact succeeds_pure h
  have hguided : ∀ guided, Succeeds (Engine.Ready c) (afterGuided guided) (OfferedResult c) := by
    intro guided
    unfold afterGuided
    split
    · exact succeeds_bind Composing.succeeds_proposeDependency hproposed
    · exact succeeds_bind (succeeds_pure (by simp [OfferedResult])) hproposed
  split
  · exact succeeds_bind Composing.succeeds_draw fun guided _ => hguided guided
  · exact succeeds_bind (P := fun _ => True) (succeeds_pure trivial) fun guided _ => hguided guided

theorem completes_add {heuristics : Float} : Completes c s (add heuristics) := by
  refine .bind succeeds_scenario fun held hheld => ?_
  subst hheld
  refine .bind (succeeds_compose succeeds_proposeCall) fun proposed hproposed => ?_
  cases proposed with
  | none => exact .pure hs
  | some new =>
    have hnew : ∀ position, c.HasResource (new.bindAt held position).resource := by
      intro position
      rw [Call.resource_of_frame Call.frame_bindAt]
      exact hproposed new rfl
    refine .bind_pure (completes_revise (Scenario.exists_addCall hs ?_ (hnew _)))
    split
    · exact Nat.zero_le _
    · exact Nat.le_refl _

end Editing

/-! ## Requests -/

namespace Mutator

variable {m : Mutator} (hs : s.Within c.HasResource)
include hs

theorem completes_perform {edit : Edit} : Completes c s (m.perform edit) := by
  cases edit with
  | add => exact (Editing.completes_add hs).bind_pure
  | delete => exact (Editing.completes_delete hs).bind_pure
  | swap => exact (Editing.completes_swap hs).bind_pure
  | replace => exact (Editing.completes_replace hs).bind_pure
  | modify => exact (Editing.completes_modify hs).bind_pure

theorem completes_apply {edit : Edit} : Completes c s (m.apply edit) := by
  refine .bind succeeds_get fun ed _ => ?_
  split
  · refine triple_bind (completes_perform hs) fun performed => ?_
    cases performed with
    | none => exact triple_pure fun _ h => h
    | some positions =>
      -- the repair cannot fail and leaves every call on its resource
      have repaired : Triple (Editor.Ready c) (Editing.revise fun s => .ok s.repair)
          (fun _ => Editor.Ready c) fun _ => False :=
        fun ed h => ⟨fun _ _ => ⟨h.engine, Scenario.within_repair.2 h.scenario⟩,
          fun _ he => nomatch he⟩
      exact triple_bind repaired fun _ => triple_pure fun _ h => h
  · exact .pure hs

/-- **A request is served**, and leaves an engine that is ready and a scenario on resources of the
catalogue. -/
theorem completes_serve {request : Request} : Completes c s (m.serve request) := by
  cases request with
  | edit edit => exact completes_apply hs
  | any =>
    refine .bind succeeds_get fun ed _ => ?_
    refine .bind (Editing.succeeds_compose Composing.succeeds_draw) fun chosen _ => ?_
    cases chosen with
    | none => exact .pure hs
    | some edit => exact completes_apply hs

end Mutator

end RestScenario
