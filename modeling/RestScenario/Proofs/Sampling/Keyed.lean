import RestScenario.Engine.Mutation
import RestScenario.Proofs.Sampling.Building

/-!
# On which resource a call is

A call is made for the resource that it is sampled for, without rows, whatever template it realizes
(`ResourceModel.made_build`), and it realizes the template that was asked for
(`ResourceModel.template_build`). Every call that an engine samples for a resource is on it, since seeding
leaves it there (`Composing.frame_seedCall`). Nothing is asked of the sampler or the engine here.
-/

namespace RestScenario

variable {call : Call} {key name : String} {options : SamplingOptions} {names : List String}
  {budget : Nat}

/-- The call is made for the resource of the key, and not seeded. -/
structure Call.MadeFor (key : String) (c : Call) : Prop where
  resource : c.resource = key
  rows : c.rows = []

/-- The call, if there is one, is made for the resource of the key. -/
def MadeResult (key : String) (result : Option Call) : Prop := ∀ c ∈ result, c.MadeFor key

@[simp]
theorem madeResult_none : MadeResult key none := by
  rintro _ ⟨⟩

@[simp]
theorem madeResult_some : MadeResult key (some call) ↔ call.MadeFor key :=
  ⟨fun h => h call rfl, fun h _ hcall => Option.some.inj hcall ▸ h⟩

/-- The call is on the resource of the key. -/
def Call.IsOn (key : String) (c : Call) : Prop := c.resource = key

/-- The call, if there is one, is on the resource of the key. -/
def KeyedResult (key : String) (result : Option Call) : Prop := ∀ c ∈ result, c.IsOn key

@[simp]
theorem keyedResult_none : KeyedResult key none := by
  rintro _ ⟨⟩

@[simp]
theorem keyedResult_some : KeyedResult key (some call) ↔ call.IsOn key :=
  ⟨fun h => h call rfl, fun h _ hcall => Option.some.inj hcall ▸ h⟩

theorem ResourceModel.made_build {m : ResourceModel} :
    Always (m.build key name options) (Call.MadeFor key) := by
  refine always_of_gives fun _ call _ h => ?_
  obtain ⟨p, hp⟩ := exists_parts h
  rw [hp.call_eq]
  exact ⟨rfl, rfl⟩

/-- A call realizes the template that was asked for. -/
theorem ResourceModel.template_build {m : ResourceModel} :
    Always (m.build key name options) fun call => m.template key name = .ok call.template := by
  refine always_of_gives fun _ call _ h => ?_
  obtain ⟨p, hp⟩ := exists_parts h
  rw [hp.call_eq]
  exact hp.template

namespace Sampler

theorem made_generate : Always (generate key name options) (Call.MadeFor key) := by
  refine ensures_bind always_any fun s _ => ?_
  have built : Always (draw (s.model.build key name options)) (Call.MadeFor key) :=
    ResourceModel.made_build.through Sampler.source fun _ => rfl
  exact ensures_bind built fun c hc => ensures_bind always_any fun _ _ => ensures_pure hc

theorem made_generateOneOf :
    Always (generateOneOf key names options) (MadeResult key) := by
  refine ensures_bind always_any fun chosen _ => ?_
  cases chosen with
  | none => exact ensures_pure madeResult_none
  | some name => exact ensures_map made_generate fun c hc => madeResult_some.2 hc

theorem made_sampleVerb {v : Verb} : Always (sampleVerb key v) (Call.MadeFor key) := by
  refine ensures_bind always_any fun r _ => ?_
  cases r.action? v with
  | none => exact ensures_throw
  | some entry =>
    refine ensures_bind always_any fun a _ => ?_
    exact ensures_bind always_any fun _ _ => ensures_pure ⟨rfl, rfl⟩

theorem made_sampleOneAction : Always (sampleOneAction key) (Call.MadeFor key) := by
  refine ensures_bind always_any fun r _ => ensures_bind always_any fun chosen _ => ?_
  cases chosen with
  | none => exact ensures_throw
  | some a => exact made_sampleVerb

theorem made_sampleAny : Always (sampleAny key options) (MadeResult key) := by
  refine ensures_bind always_any fun r _ => ?_
  dsimp only
  split
  · exact ensures_pure madeResult_none
  · exact made_generateOneOf

theorem made_sampleIndependent : Always (sampleIndependent key options) (MadeResult key) := by
  refine ensures_bind always_any fun r _ => ?_
  split
  · exact made_sampleAny
  · exact made_generateOneOf

theorem made_generatePostChain :
    Always (generatePostChain key options) (MadeResult key) := by
  refine ensures_bind always_any fun r _ => ?_
  split
  · exact ensures_pure madeResult_none
  · exact ensures_map made_generate fun c hc => madeResult_some.2 hc

theorem made_generateAnother :
    Always (generateAnother call options) (MadeResult call.resource) :=
  ensures_bind always_any fun _ _ => made_generateOneOf

end Sampler

namespace Composing

theorem always_sample {α : Type} {x : Sampled α} {P : α → Prop} (h : Always x P) :
    Always (sample x) P := h.through Engine.sampler fun _ => rfl

/-- Seeding leaves a call its form. -/
theorem form_seedCall {forced : Bool} :
    Always (seedCall call forced) fun seeded => seeded.form = call.form := by
  refine ensures_bind always_any fun e _ => ?_
  dsimp only
  split
  · exact ensures_pure rfl
  · split
    · exact ensures_pure rfl
    · exact ensures_bind always_any fun rows _ => ensures_pure Engine.form_attachRows

/-- Seeding leaves a call on its resource, and changes no outline. -/
theorem frame_seedCall {forced : Bool} :
    Always (seedCall call forced) fun seeded => seeded.frame = call.frame :=
  form_seedCall.imp fun _ h => Call.frame_of_form h

theorem keyed_sampleAnyCall : Always (sampleAnyCall key budget) (KeyedResult key) := by
  refine ensures_bind always_any fun e _ => ?_
  refine ensures_bind (always_sample Sampler.made_sampleAny) fun result hresult => ?_
  cases result with
  | none => exact ensures_pure keyedResult_none
  | some c =>
    refine ensures_map frame_seedCall fun seeded hseeded => keyedResult_some.2 ?_
    exact (Call.resource_of_frame hseeded).trans (madeResult_some.1 hresult).resource

end Composing

namespace Editing

/-- A call that is sampled anew is made for its resource, without rows. -/
theorem made_resample : Always (resample call budget) (Call.MadeFor call.resource) := by
  refine ensures_bind always_any fun e _ => ?_
  refine ensures_bind (Composing.always_sample Sampler.made_generateAnother) fun result hresult => ?_
  cases result with
  | none => exact Composing.always_sample Sampler.made_sampleOneAction
  | some c => exact ensures_pure (madeResult_some.1 hresult)

/-- A call that is sampled anew stays on its resource. -/
theorem keyed_resample : Always (resample call budget) (Call.IsOn call.resource) :=
  made_resample.imp fun _ h => h.resource

end Editing

end RestScenario
