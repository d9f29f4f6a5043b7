import RestScenario.Proofs.Resource.Site
import RestScenario.Sampling

/-!
# Creation chains and creation plans

The creation chain of a site and the creation planned for a call climb the same creators
(`creatorsAbove`). The chain takes all of them (`extendChain_actions`), the plan as many as the
budget admits (`creationPlan_post`, `creationPlan_other`).

How the plan ends is a matter of counting. Before each look for a creator the plan asks whether there
is room for one action more (`SamplingOptions.ending`). A complete chain is climbed with one look for
each creator; where the chain is incomplete, a last look finds nothing (`searchesAbove`), and this
look takes room, too.
-/

namespace RestScenario

/-- The creating actions above a creating action, nearest first. -/
def creatorsAbove (sites : Sites) (a : Action) : List Action :=
  if a.path.needsParent then
    match (sites.creatorsFor a.path a.name).head? with
    | some next => if next.path.levels < a.path.levels then next :: creatorsAbove sites next else []
    | none => []
  else []
termination_by a.path.levels

/-- As many creators as may still be planned. -/
def SamplingOptions.limit (options : SamplingOptions) (planned : Nat) (creators : List Action) :
    List Action :=
  if options.checkSize then creators.take (options.budget - planned) else creators

/-- How often a creator is looked for in order to climb from a creating action: once for each one
that is found, and once in vain where the chain is incomplete. -/
def searchesAbove (sites : Sites) (a : Action) : Nat :=
  (creatorsAbove sites a).length + if (sites.extendChain a []).isComplete then 0 else 1

/-- How a creation ends that takes several searches, each of which needs room for one action after
those that are planned before it. -/
def SamplingOptions.ending (options : SamplingOptions) (planned searches : Nat) (complete : Bool) :
    CallStatus :=
  if options.checkSize && 0 < searches && options.budget < planned + searches then .notEnoughLength
  else if complete then .created
  else .notFoundDependent

variable {sites : Sites} {options : SamplingOptions} {a b first : Action} {planned : Nat}

/-! ## Chains -/

/-- The chain from an action consists of the action and all creators above it. -/
theorem extendChain_actions (rest : List Action) :
    (sites.extendChain a rest).actions = (creatorsAbove sites a).reverse ++ a :: rest := by
  induction a, rest using Sites.extendChain.induct sites with
  | case1 first rest hneeds next hnext hshorter ih =>
    rw [Sites.extendChain, creatorsAbove, if_pos hneeds, if_pos hneeds, hnext]
    dsimp only
    rw [if_pos hshorter, if_pos hshorter, ih]
    simp
  | case2 first rest hneeds next hnext hshorter =>
    rw [Sites.extendChain, creatorsAbove, if_pos hneeds, if_pos hneeds, hnext]
    dsimp only
    rw [if_neg hshorter, if_neg hshorter]
    rfl
  | case3 first rest hneeds hnone =>
    rw [Sites.extendChain, creatorsAbove, if_pos hneeds, if_pos hneeds, hnone]
    rfl
  | case4 first rest hneeds =>
    rw [Sites.extendChain, creatorsAbove, if_neg hneeds, if_neg hneeds]
    rfl

/-- What the chain already has does not matter to whether it gets complete. -/
theorem isComplete_extendChain (rest rest' : List Action) :
    (sites.extendChain a rest).isComplete = (sites.extendChain a rest').isComplete := by
  induction a using creatorsAbove.induct sites generalizing rest rest' with
  | case1 a hneeds next hnext hshorter ih =>
    rw [Sites.extendChain, Sites.extendChain, if_pos hneeds, if_pos hneeds, hnext]
    dsimp only
    rw [if_pos hshorter, if_pos hshorter]
    exact ih _ _
  | case2 a hneeds next hnext hshorter =>
    rw [Sites.extendChain, Sites.extendChain, if_pos hneeds, if_pos hneeds, hnext]
    dsimp only
    rw [if_neg hshorter, if_neg hshorter]
    rfl
  | case3 a hneeds hnone =>
    rw [Sites.extendChain, Sites.extendChain, if_pos hneeds, if_pos hneeds, hnone]
    rfl
  | case4 a hneeds =>
    rw [Sites.extendChain, Sites.extendChain, if_neg hneeds, if_neg hneeds]
    rfl

/-! ## Plans -/

theorem SamplingOptions.limit_nil : options.limit planned [] = [] := by
  unfold limit
  split
  · exact List.take_nil
  · rfl

theorem SamplingOptions.limit_of_full {creators : List Action}
    (h : (options.checkSize && options.budget ≤ planned) = true) :
    options.limit planned creators = [] := by
  obtain ⟨hcheck, hbudget⟩ := Bool.and_eq_true_iff.1 h
  unfold limit
  rw [if_pos hcheck, Nat.sub_eq_zero_of_le (decide_eq_true_iff.1 hbudget), List.take_zero]

theorem SamplingOptions.limit_cons {creators : List Action}
    (h : ¬ (options.checkSize && options.budget ≤ planned) = true) :
    options.limit planned (a :: creators) = a :: options.limit (planned + 1) creators := by
  unfold limit
  cases hcheck : options.checkSize with
  | false => rfl
  | true =>
    have hbudget : planned < options.budget := by simpa [hcheck] using h
    rw [if_pos rfl, if_pos rfl, show options.budget - planned = options.budget - (planned + 1) + 1
      by omega, List.take_succ_cons]

/-! ### How plans end -/

section Ending

variable {searches : Nat} {complete : Bool}

theorem SamplingOptions.ending_zero :
    options.ending planned 0 complete = if complete then .created else .notFoundDependent := by
  simp [ending]

theorem SamplingOptions.ending_of_full
    (h : (options.checkSize && options.budget ≤ planned) = true) :
    options.ending planned (searches + 1) complete = .notEnoughLength := by
  simp only [Bool.and_eq_true, decide_eq_true_eq] at h
  have hfull : (options.checkSize && 0 < searches + 1 &&
      options.budget < planned + (searches + 1)) = true := by
    simp only [h.1, Bool.true_and, Bool.and_eq_true, decide_eq_true_eq]
    omega
  unfold ending
  rw [if_pos hfull]

theorem SamplingOptions.ending_succ
    (h : ¬ (options.checkSize && options.budget ≤ planned) = true) :
    options.ending planned (searches + 1) complete =
      options.ending (planned + 1) searches complete := by
  have hsame : (options.checkSize && 0 < searches + 1 &&
        options.budget < planned + (searches + 1)) =
      (options.checkSize && 0 < searches && options.budget < planned + 1 + searches) := by
    cases hcheck : options.checkSize with
    | false => rfl
    | true =>
      have hroom : planned < options.budget := by simpa [hcheck] using h
      simp only [Bool.true_and]
      rw [← Bool.decide_and, ← Bool.decide_and, decide_eq_decide]
      omega
  unfold ending
  rw [hsame]

@[simp]
theorem SamplingOptions.ofNested_ending :
    (options.ending planned searches complete).ofNested = options.ending planned searches complete := by
  unfold ending
  split
  · rfl
  · split <;> rfl

end Ending

theorem creationRank_post (h : a.verb = .post) : creationRank a = 2 * a.path.levels := by
  unfold creationRank
  rw [if_pos h]
  omega

/-- Where nothing creates the parent that is needed, the one search is in vain. -/
theorem creationPlan_of_stuck (ha : a.verb = .post) (hneeds : a.path.needsParent = true)
    (hstuck : ∀ next ∈ (sites.creatorsFor a.path a.name).head?,
      ¬ next.path.levels < a.path.levels) :
    creationPlan sites options a planned = (options.limit planned (creatorsAbove sites a),
      options.ending planned (searchesAbove sites a) (sites.extendChain a []).isComplete) := by
  have hchain : creatorsAbove sites a = [] ∧
      sites.extendChain a [] = ⟨[a], .incomplete a.path.key⟩ := by
    rw [creatorsAbove, Sites.extendChain, if_pos hneeds, if_pos hneeds]
    cases hnext : (sites.creatorsFor a.path a.name).head? with
    | none => exact ⟨rfl, rfl⟩
    | some next => exact ⟨if_neg (hstuck next hnext), if_neg (hstuck next hnext)⟩
  have hsearches : searchesAbove sites a = 1 := by
    unfold searchesAbove
    rw [hchain.1, hchain.2]
    rfl
  have hplan : creationPlan sites options a planned =
      if options.checkSize && options.budget ≤ planned then ([], .notEnoughLength)
      else ([], .notFoundDependent) := by
    have hmissing : missingCreator a = .notFoundDependent := if_pos ha
    rw [creationPlan, if_neg (by simp [hneeds]), hmissing]
    cases hnext : (sites.creatorsFor a.path a.name).head? with
    | none => rfl
    | some next =>
      have hpost := Sites.verb_of_mem_creatorsFor (List.mem_of_mem_head? hnext)
      have hrank : ¬ creationRank next < creationRank a := by
        have hlonger := hstuck next hnext
        rw [creationRank_post hpost, creationRank_post ha]
        omega
      dsimp only
      rw [if_neg hrank]
  rw [hplan, hchain.1, hchain.2, hsearches, SamplingOptions.limit_nil]
  by_cases hfull : (options.checkSize && options.budget ≤ planned) = true
  · rw [if_pos hfull, SamplingOptions.ending_of_full hfull]
  · rw [if_neg hfull, SamplingOptions.ending_succ hfull, SamplingOptions.ending_zero]
    rfl

/-- **For a creating action the plan takes the creators above it**, as far as the budget goes, and
ends as the chain does if there is room for all searches. -/
theorem creationPlan_post (ha : a.verb = .post) :
    creationPlan sites options a planned = (options.limit planned (creatorsAbove sites a),
      options.ending planned (searchesAbove sites a) (sites.extendChain a []).isComplete) := by
  induction a using creatorsAbove.induct sites generalizing planned with
  | case1 a hneeds next hnext hshorter ih =>
    have hpost := Sites.verb_of_mem_creatorsFor (List.mem_of_mem_head? hnext)
    -- Ranks of creating actions compare like the lengths of their paths.
    have hrank : creationRank next < creationRank a := by
      rw [creationRank_post hpost, creationRank_post ha]
      omega
    have habove : creatorsAbove sites a = next :: creatorsAbove sites next := by
      rw [creatorsAbove, if_pos hneeds, hnext]
      exact if_pos hshorter
    have hcomplete : (sites.extendChain a []).isComplete = (sites.extendChain next []).isComplete := by
      rw [Sites.extendChain, if_pos hneeds, hnext]
      dsimp only
      rw [if_pos hshorter]
      exact isComplete_extendChain _ _
    have hsearches : searchesAbove sites a = searchesAbove sites next + 1 := by
      unfold searchesAbove
      rw [habove, hcomplete, List.length_cons]
      omega
    rw [habove, hcomplete, hsearches, creationPlan, if_neg (by simp [hneeds]), hnext]
    dsimp only
    rw [if_pos hrank]
    by_cases hfull : (options.checkSize && options.budget ≤ planned) = true
    · rw [if_pos hfull, SamplingOptions.limit_of_full hfull, SamplingOptions.ending_of_full hfull]
    · rw [if_neg hfull, SamplingOptions.limit_cons hfull, SamplingOptions.ending_succ hfull, ih hpost,
        SamplingOptions.ofNested_ending]
  | case2 a hneeds next hnext hshorter =>
    refine creationPlan_of_stuck ha hneeds fun b hb => ?_
    obtain rfl : next = b := Option.some.inj (hnext.symm.trans hb)
    exact hshorter
  | case3 a hneeds hnone =>
    refine creationPlan_of_stuck ha hneeds fun b hb => ?_
    rw [hnone] at hb
    cases hb
  | case4 a hneeds =>
    have habove : creatorsAbove sites a = [] := by
      rw [creatorsAbove, if_neg hneeds]
    have hcomplete : (sites.extendChain a []).isComplete = true := by
      rw [Sites.extendChain, if_neg hneeds]
      rfl
    have hsearches : searchesAbove sites a = 0 := by
      unfold searchesAbove
      rw [habove, hcomplete]
      rfl
    rw [habove, hcomplete, hsearches, creationPlan, if_pos (by simp [ha, hneeds]),
      SamplingOptions.limit_nil, SamplingOptions.ending_zero]
    rfl

/-- For any other action the plan starts with its creator. -/
theorem creationPlan_other (ha : a.verb ≠ .post)
    (hfirst : (sites.creatorsFor a.path a.name).head? = some first)
    (hlevels : first.path.levels ≤ a.path.levels) :
    creationPlan sites options a planned =
      (options.limit planned (first :: creatorsAbove sites first),
        options.ending planned (searchesAbove sites first + 1)
          (sites.extendChain first []).isComplete) := by
  have hpost := Sites.verb_of_mem_creatorsFor (List.mem_of_mem_head? hfirst)
  have hrank : creationRank first < creationRank a := by
    rw [creationRank_post hpost]
    unfold creationRank
    rw [if_neg ha]
    omega
  rw [creationPlan, if_neg (by simp [ha]), hfirst]
  dsimp only
  rw [if_pos hrank]
  by_cases hfull : (options.checkSize && options.budget ≤ planned) = true
  · rw [if_pos hfull, SamplingOptions.limit_of_full hfull, SamplingOptions.ending_of_full hfull]
  · rw [if_neg hfull, SamplingOptions.limit_cons hfull, SamplingOptions.ending_succ hfull,
      creationPlan_post hpost, SamplingOptions.ofNested_ending]

/-- A plan depends on the verb and the path of its target alone. -/
theorem creationPlan_congr (hverb : a.verb = b.verb) (hpath : a.path = b.path) :
    creationPlan sites options a planned = creationPlan sites options b planned := by
  have hname : a.name = b.name := by
    unfold Action.name
    rw [hverb, hpath]
  have hrank : creationRank a = creationRank b := by
    unfold creationRank
    rw [hverb, hpath]
  have hmissing : missingCreator a = missingCreator b := by
    unfold missingCreator
    rw [hverb]
  rw [creationPlan, creationPlan, hverb, hpath, hname, hrank, hmissing]

end RestScenario
