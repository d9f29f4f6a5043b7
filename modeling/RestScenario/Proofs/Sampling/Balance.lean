import Mathlib
import RestScenario.Proofs.Ordered.Map
import RestScenario.Proofs.Sampling.CreatingCalls
import RestScenario.Proofs.Sampling.Realized

/-!
# Sampling in balance

One of the least realized templates that fit the budget is realized at a time. So where all of them
were realized equally often, they stay balanced: their counts differ by at most one.

**Step.** A template in use can always be realized (`exists_gives_generate`), and that counts it
once more and nothing else (`Resource.realized`). If it was one of the least realized, balance is
kept (`Balanced.map_realized`), and the sum of the counts grows by one (`Resource.advanced_realized`).

**Run.** `exists_gives_sampleRepeatedly` follows any number of requests, from a balanced sampler to
a balanced one; `Resource.Advanced` says what may change on the way. Main statement:
`sampling_keeps_templates_balanced`.
-/

namespace RestScenario

open RestScenario.Random

/-! ## Balanced templates -/

/-- The number of realizations of several templates together. -/
def totalTimes (ts : List Template) : Nat := (ts.map (·.times)).sum

/-- No template was realized more often than another by two. -/
def Balanced (ts : List Template) : Prop := ∀ t ∈ ts, ∀ t' ∈ ts, t.times ≤ t'.times + 1

/-- The template with its count, one higher if it has the name. -/
def Template.realized (name : String) (t : Template) : Template :=
  if t.name = name then t.visited else t

section Templates

variable {ts : List Template} {t : Template} {name : String}

@[simp]
theorem Template.size_realized : (t.realized name).size = t.size := by
  unfold realized
  split <;> rfl

@[simp]
theorem Template.uncounted_realized : (t.realized name).uncounted = t.uncounted := by
  unfold realized
  split <;> rfl

theorem Template.times_realized :
    (t.realized name).times = t.times + if t.name = name then 1 else 0 := by
  unfold realized
  split <;> rfl

theorem totalTimes_map_realized : totalTimes (ts.map (Template.realized name)) =
    totalTimes ts + (ts.map (·.name)).count name := by
  induction ts with
  | nil => rfl
  | cons t rest ih =>
    simp only [totalTimes, List.map_cons, List.sum_cons, List.count_cons, beq_iff_eq,
      Template.times_realized] at ih ⊢
    omega

/-- Balance is kept where one of the least realized templates is realized. -/
theorem Balanced.map_realized (h : Balanced ts) (hnames : (ts.map (·.name)).Nodup) (ht : t ∈ ts)
    (hleast : ∀ t' ∈ ts, t.times ≤ t'.times) : Balanced (ts.map (Template.realized t.name)) := by
  intro a' ha' b' hb'
  obtain ⟨a, ha, rfl⟩ := List.mem_map.1 ha'
  obtain ⟨b, hb, rfl⟩ := List.mem_map.1 hb'
  have hbalanced := h a ha b hb
  rw [Template.times_realized, Template.times_realized]
  by_cases hname : a.name = t.name
  · obtain rfl : a = t := List.inj_on_of_nodup_map hnames ha ht hname
    have := hleast b hb
    simp
    omega
  · simp [hname]
    omega

end Templates

/-! ## Resources -/

namespace Resource

variable {r r' r'' : Resource} {name : String} {budget n n' : Nat}

/-- The templates that fit a budget. -/
def fitting (r : Resource) (budget : Nat) : List Template :=
  r.templates.values.filter fun t => t.size ≤ budget

/-- The resource with one of its templates counted once more. -/
def realized (name : String) (r : Resource) : Resource :=
  { r with templates := SortedMap.map (fun _ => Template.realized name) r.templates }

/-- Templates are filed under their names. -/
def Named (r : Resource) : Prop := ∀ name t, r.templates.get? name = some t → t.name = name

theorem Named.get?_name {t : Template} (h : r.Named) (ht : t ∈ r.templates.values) :
    r.templates.get? t.name = some t := by
  obtain ⟨name, ht⟩ := SortedMap.mem_values_iff.1 ht
  rwa [h name t ht]

theorem realized_eq (h : r.Named) : r.realized name =
    { r with templates := SortedMap.modify r.templates name Template.visited } := by
  unfold realized
  congr 1
  rw [SortedMap.modify_eq_map]
  refine SortedMap.ext_get? fun key => ?_
  rw [SortedMap.get?_map, SortedMap.get?_map]
  refine Option.map_congr fun t ht => ?_
  rw [Template.realized, h key t ht]

theorem fitting_realized :
    (r.realized name).fitting budget = (r.fitting budget).map (Template.realized name) := by
  have hvalues : (r.realized name).templates.values =
      r.templates.values.map (Template.realized name) := by
    show (r.templates.entries.map _).map _ = (r.templates.entries.map _).map _
    rw [List.map_map, List.map_map]
    rfl
  rw [fitting, hvalues, List.filter_map, fitting]
  congr 2
  funext t
  simp

theorem nodup_names_fitting (h : r.Named) : ((r.fitting budget).map (·.name)).Nodup := by
  refine List.Nodup.sublist (List.filter_sublist.map _) ?_
  have hkeys : r.templates.values.map (·.name) = r.templates.keys := by
    show (r.templates.entries.map (·.2)).map (·.name) = r.templates.entries.map (·.1)
    rw [List.map_map]
    exact List.map_congr_left fun e he => h e.1 e.2 (SortedMap.mem_entries_iff.1 he)
  rw [hkeys]
  exact SortedMap.nodup_keys

/-- What `n` realizations of templates within a budget may change of a resource: counts alone, which
grow by `n` together, and none of a template that exceeds the budget. -/
structure Advanced (budget n : Nat) (r r' : Resource) : Prop where
  uncounted : r'.uncounted = r.uncounted
  total : totalTimes (r'.fitting budget) = totalTimes (r.fitting budget) + n
  exceeding : ∀ name t, r.templates.get? name = some t → budget < t.size →
    r'.templates.get? name = some t

theorem Advanced.refl (budget : Nat) (r : Resource) : r.Advanced budget 0 r :=
  ⟨rfl, rfl, fun _ _ h _ => h⟩

theorem Advanced.trans (h : r.Advanced budget n r') (h' : r'.Advanced budget n' r'') :
    r.Advanced budget (n + n') r'' where
  uncounted := h'.uncounted.trans h.uncounted
  total := by rw [h'.total, h.total, Nat.add_assoc]
  exceeding name t ht hsize := h'.exceeding name t (h.exceeding name t ht hsize) hsize

theorem advanced_realized {t : Template} (h : r.Named) (ht : t ∈ r.fitting budget) :
    r.Advanced budget 1 (r.realized t.name) where
  uncounted := by
    unfold uncounted realized
    congr 1
    rw [SortedMap.map_map]
    congr 1
    funext _ t'
    exact Template.uncounted_realized
  total := by
    rw [fitting_realized, totalTimes_map_realized,
      List.count_eq_one_of_mem (nodup_names_fitting h) (List.mem_map_of_mem ht)]
  exceeding name t' ht' hsize := by
    obtain ⟨hmem, hfits⟩ := List.mem_filter.1 ht
    have hother : t'.name ≠ t.name := by
      intro hname
      have hsame : some t' = some t := by
        rw [← h.get?_name hmem, ← hname, h name t' ht', ht']
      rw [Option.some.inj hsame] at hsize
      exact absurd (of_decide_eq_true hfits) (by omega)
    show SortedMap.get? (SortedMap.map _ r.templates) name = _
    rw [SortedMap.get?_map, ht', Option.map_some, Template.realized, if_neg hother]

end Resource

namespace ResourceModel

variable {m : ResourceModel} {r : Resource} {key other name : String}

theorem get?_visit_self (hr : m.get? key = some r) (hnamed : r.Named) :
    (m.visit key name).get? key = some (r.realized name) := by
  rw [Resource.realized_eq hnamed]
  show (m.resources.modify key _).get? key = _
  rw [SortedMap.modify_eq_map, SortedMap.get?_map, show m.resources.get? key = some r from hr,
    Option.map_some, if_pos rfl]

theorem get?_visit_of_ne (h : other ≠ key) : (m.visit key name).get? other = m.get? other := by
  show (m.resources.modify key _).get? other = _
  rw [SortedMap.modify_eq_map, SortedMap.get?_map]
  simp [h, get?]

end ResourceModel

/-! ## Samplers -/

namespace Sampler

variable {c : Catalogue} {s : Sampler} {r : Resource} {key name : String}
  {options : SamplingOptions}

/-- A template in use is realized, which counts it once more and changes nothing else. -/
theorem exists_gives_generate (options : SamplingOptions) (hs : s.InUse c)
    (h : c.HasTemplate key name) :
    ∃ call s', Gives (generate key name options) s call s' ∧
      s'.model = s.model.visit key name := by
  have hsucceeds : Succeeds (fun _ => True) (s.model.build key name options) fun _ => True :=
    ResourceModel.succeeds_build hs h
  obtain ⟨call, source, hbuilt, -⟩ := hsucceeds.exists_gives trivial
  have hcounted : Gives (visit key name) (⟨s.model, source⟩ : Sampler) ()
      ⟨s.model.visit key name, source⟩ := rfl
  refine ⟨call, ⟨s.model.visit key name, source⟩, ?_, rfl⟩
  refine gives_bind.2 ⟨s, s, gives_get.2 ⟨rfl, rfl⟩, ?_⟩
  refine gives_bind.2 ⟨call, _, gives_draw hbuilt, ?_⟩
  exact gives_bind.2 ⟨(), _, hcounted, gives_pure.2 ⟨rfl, rfl⟩⟩

theorem exists_gives_generateOneOf (options : SamplingOptions) {names : List String}
    (hs : s.InUse c) (hnames : names ≠ []) (h : ∀ name ∈ names, c.HasTemplate key name) :
    ∃ name ∈ names, ∃ call s', Gives (generateOneOf key names options) s (some call) s' ∧
      s'.model = s.model.visit key name := by
  have hchoice : ∃ name, ((choose names).run s.source).1 = some name := exists_of_choose hnames
  obtain ⟨name, hname⟩ := hchoice
  have hmem := mem_of_choose hname
  let s₁ : Sampler := { s with source := ((choose names).run s.source).2 }
  have hchosen : Gives (drawAlways (choose names)) s (some name) s₁ := by
    rw [← hname]
    rfl
  obtain ⟨call, s', hcall, hmodel⟩ :=
    exists_gives_generate options (show s₁.InUse c from hs) (h name hmem)
  refine ⟨name, hmem, call, s', gives_bind.2 ⟨some name, s₁, hchosen, ?_⟩, hmodel⟩
  exact gives_bind.2 ⟨call, s', hcall, gives_pure.2 ⟨rfl, rfl⟩⟩

theorem exists_fewestTimes? {ts : List Template} (h : ts ≠ []) :
    ∃ fewest, fewestTimes? ts = some fewest ∧ (∃ t ∈ ts, t.times = fewest) ∧
      ∀ t ∈ ts, fewest ≤ t.times := by
  have hsome : ((ts.map (·.times)).min?).isSome = true := by
    rw [List.isSome_min?_iff]
    simpa using h
  obtain ⟨fewest, hfewest⟩ := Option.isSome_iff_exists.1 hsome
  obtain ⟨hmem, hle⟩ := List.min?_eq_some_iff.1 hfewest
  exact ⟨fewest, hfewest, List.mem_map.1 hmem, fun t ht => hle _ (List.mem_map_of_mem ht)⟩

/-- **One request.** One of the least realized templates that fit the budget is realized. -/
theorem exists_gives_sampleAny (hs : s.InUse c) (hr : s.model.get? key = some r)
    (hfits : r.fitting options.budget ≠ []) :
    ∃ call s' t, Gives (sampleAny key options) s (some call) s' ∧
      t ∈ r.fitting options.budget ∧ (∀ t' ∈ r.fitting options.budget, t.times ≤ t'.times) ∧
      s'.model = s.model.visit key t.name := by
  obtain ⟨fewest, hfewest, ⟨least, hleast, htimes⟩, hle⟩ := exists_fewestTimes? hfits
  let candidates := (r.fitting options.budget).filter fun t => t.times = fewest
  have hcandidates : candidates.map (·.name) ≠ [] :=
    List.ne_nil_of_mem (List.mem_map_of_mem (List.mem_filter.2 ⟨hleast, decide_eq_true htimes⟩))
  have htemplates : ∀ name ∈ candidates.map (·.name), c.HasTemplate key name := by
    intro name hname
    obtain ⟨t, ht, rfl⟩ := List.mem_map.1 hname
    exact ResourceModel.InUse.hasTemplate hs hr (List.mem_filter.1 (List.mem_filter.1 ht).1).1
  obtain ⟨name, hname, call, s', hcall, hmodel⟩ :=
    exists_gives_generateOneOf options hs hcandidates htemplates
  obtain ⟨t, ht, rfl⟩ := List.mem_map.1 hname
  obtain ⟨hfitting, ht⟩ := List.mem_filter.1 ht
  refine ⟨call, s', t, ?_, hfitting, fun t' ht' => ?_, hmodel⟩
  · have hresource : Gives (resource key) s r s :=
      gives_bind.2 ⟨s, s, gives_get.2 ⟨rfl, rfl⟩, gives_liftExcept (ResourceModel.resource_eq hr)⟩
    refine gives_bind.2 ⟨r, s, hresource, ?_⟩
    rw [Resource.fitting] at hfewest
    simp only [hfewest]
    exact hcall
  · rw [of_decide_eq_true ht]
    exact hle t' ht'

/-- Several requests of one kind, one after another. -/
def sampleRepeatedly (key : String) (options : SamplingOptions) : Nat → Sampled (List (Option Call))
  | 0 => return []
  | n + 1 => do
    let result ← sampleAny key options
    let more ← sampleRepeatedly key options n
    return result :: more

/-- **Several requests.** -/
theorem exists_gives_sampleRepeatedly (hs : s.InUse c) (hr : s.model.get? key = some r)
    (hfits : r.fitting options.budget ≠ []) (hbalanced : Balanced (r.fitting options.budget))
    (n : Nat) :
    ∃ results s' r', Gives (sampleRepeatedly key options n) s results s' ∧ results.length = n ∧
      (∀ result ∈ results, result.isSome = true) ∧ s'.model.get? key = some r' ∧
      r.Advanced options.budget n r' ∧ Balanced (r'.fitting options.budget) ∧
      ∀ other ≠ key, s'.model.get? other = s.model.get? other := by
  induction n generalizing s r with
  | zero =>
    exact ⟨[], s, r, gives_pure.2 ⟨rfl, rfl⟩, rfl, by simp, hr, .refl _ r, hbalanced,
      fun _ _ => rfl⟩
  | succ n ih =>
    obtain ⟨call, s₁, t, hcall, ht, hleast, hmodel⟩ := exists_gives_sampleAny hs hr hfits
    have hnamed : r.Named := fun _ _ ht => ResourceModel.InUse.name_eq hs hr ht
    have hr₁ : s₁.model.get? key = some (r.realized t.name) :=
      hmodel ▸ ResourceModel.get?_visit_self hr hnamed
    have hs₁ : s₁.InUse c := by
      show s₁.model.InUse c
      rw [hmodel]
      exact ResourceModel.InUse.visit hs
    have hbalanced₁ := hbalanced.map_realized (Resource.nodup_names_fitting hnamed) ht hleast
    rw [← Resource.fitting_realized] at hbalanced₁
    have hfits₁ : (r.realized t.name).fitting options.budget ≠ [] := by
      simpa [Resource.fitting_realized] using hfits
    obtain ⟨results, s', r', hgives, hlength, hsome, hr', hadvanced, hbalanced', hothers⟩ :=
      ih hs₁ hr₁ hfits₁ hbalanced₁
    refine ⟨some call :: results, s', r', ?_, by simp [hlength], by simpa using hsome, hr', ?_,
      hbalanced', fun other hother => ?_⟩
    · exact gives_bind.2 ⟨_, s₁, hcall, gives_bind.2 ⟨results, s', hgives, gives_pure.2 ⟨rfl, rfl⟩⟩⟩
    · rw [Nat.add_comm]
      exact (Resource.advanced_realized hnamed ht).trans hadvanced
    · rw [hothers other hother, hmodel, ResourceModel.get?_visit_of_ne hother]

end Sampler

/-- **Sampling keeps templates balanced.** Take a sampler of any catalogue, in use for any time, a
resource of it, and a request whose budget admits a template. Where all templates that fit were
realized equally often, the request is answered any number of times, whatever the random words: each
time with a call. The templates that fit are then realized as often more as there were requests, and
none of them more often than another by two. No other template and no other resource is counted. -/
theorem sampling_keeps_templates_balanced {c : Catalogue} {s : Sampler} {key : String}
    {r : Resource} (options : SamplingOptions) (hs : s.InUse c) (hr : s.model.get? key = some r)
    (hfits : r.fitting options.budget ≠ [])
    (hequal : ∀ t ∈ r.fitting options.budget, ∀ t' ∈ r.fitting options.budget, t.times = t'.times)
    (n : Nat) :
    ∃ results s' r', Gives (Sampler.sampleRepeatedly key options n) s results s' ∧
      results.length = n ∧ (∀ result ∈ results, result.isSome = true) ∧
      s'.model.get? key = some r' ∧ r.Advanced options.budget n r' ∧
      Balanced (r'.fitting options.budget) ∧
      ∀ other ≠ key, s'.model.get? other = s.model.get? other := by
  refine Sampler.exists_gives_sampleRepeatedly hs hr hfits (fun t ht t' ht' => ?_) n
  rw [hequal t ht t' ht']
  exact Nat.le_succ _

open Sample in
theorem orders_read_and_created_in_turn :
    ∃ results s' r', Gives (Sampler.sampleRepeatedly "/users/\x7bid\x7d/orders" (.ofBudget 2) 5)
        ⟨shopModel, ⟨fun _ => 0, 0, 0⟩⟩ results s' ∧
      results.length = 5 ∧ s'.model.get? "/users/\x7bid\x7d/orders" = some r' ∧
      totalTimes (r'.fitting 2) = 5 ∧ Balanced (r'.fitting 2) ∧
      r'.templates.get? "POST-GET" = some createAndRead := by
  have hs : Sampler.InUse shop ⟨shopModel, ⟨fun _ => 0, 0, 0⟩⟩ :=
    ResourceModel.inUse_of_ofCatalogue (eq_ok_of_isSome_toOption .empty (by decide +kernel))
  have horders : (shopModel.get? "/users/\x7bid\x7d/orders").map
      (fun r => (r.fitting 2, r.templates.get? "POST-GET")) =
        some ([⟨"GET", true, 1, 0⟩, ⟨"POST", false, 2, 0⟩], some createAndRead) := by
    decide +kernel
  obtain ⟨r, hr, heq⟩ := Option.map_eq_some_iff.1 horders
  obtain ⟨hfitting, hlong⟩ := Prod.mk.inj heq
  have hequal : ∀ t ∈ r.fitting 2, ∀ t' ∈ r.fitting 2, t.times = t'.times := by
    rw [hfitting]
    decide
  obtain ⟨results, s', r', hgives, hlength, -, hr', hadvanced, hbalanced, -⟩ :=
    sampling_keeps_templates_balanced (.ofBudget 2) hs hr (hfitting ▸ List.cons_ne_nil _ _) hequal 5
  refine ⟨results, s', r', hgives, hlength, hr', ?_, hbalanced, ?_⟩
  · have htotal : totalTimes (r'.fitting 2) = totalTimes (r.fitting 2) + 5 := hadvanced.total
    rw [htotal, hfitting]
    rfl
  · exact hadvanced.exceeding "POST-GET" createAndRead hlong (by decide)

end RestScenario
