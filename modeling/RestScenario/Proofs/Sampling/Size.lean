import RestScenario.Proofs.Resource.Model
import RestScenario.Proofs.Sampling.Building

/-!
# The size of a call

A call has at least one action. Where the size is checked, the creation leaves room for the target,
and a further `PATCH` comes only where room is left, so the call keeps to a budget of at least one
(`ResourceModel.length_of_gives_build`).
-/

namespace RestScenario

variable {sites : Sites} {options : SamplingOptions} {a : Action} {planned : Nat}

theorem length_creationPlan_le (hcheck : options.checkSize = true) :
    (creationPlan sites options a planned).1.length ≤ options.budget - planned := by
  induction a, planned using creationPlan.induct sites options with
  | case1 a planned hfree =>
    rw [creationPlan, if_pos hfree]
    exact Nat.zero_le _
  | case2 a planned hneeds hfull =>
    rw [creationPlan, if_neg hneeds, if_pos hfull]
    exact Nat.zero_le _
  | case3 a planned hneeds hroom hnone =>
    rw [creationPlan, if_neg hneeds, if_neg hroom, hnone]
    exact Nat.zero_le _
  | case4 a planned hneeds hroom creator hcreator hrank outer nested hplan ih =>
    rw [creationPlan, if_neg hneeds, if_neg hroom, hcreator]
    dsimp only
    rw [if_pos hrank, hplan]
    rw [hplan] at ih
    have hplanned : planned < options.budget := by simpa [hcheck] using hroom
    have houter : outer.length ≤ options.budget - (planned + 1) := ih
    show outer.length + 1 ≤ options.budget - planned
    omega
  | case5 a planned hneeds hroom creator hcreator hrank =>
    rw [creationPlan, if_neg hneeds, if_neg hroom, hcreator]
    dsimp only
    rw [if_neg hrank]
    exact Nat.zero_le _

namespace ResourceModel

variable {c : Catalogue} {m : ResourceModel} {key name : String} {t : Template} {verbs : List Verb}
  {entry : Action} {source source' : Random.Source} {call : Call}

/-- No template in use lists a verb after its target. -/
theorem InUse.nothing_follows (hm : m.InUse c) (ht : m.template key name = .ok t)
    (hverbs : t.verbs? = some verbs) : (verbs.dropWhile (· = .post)).drop 1 = [] := by
  obtain ⟨r, hr, ht⟩ := template_eq_ok ht
  obtain ⟨-, ⟨v, -, hv, hlisted, -⟩ | ⟨rest, hrest, hlisted, -⟩⟩ := hm.template hr ht
  · obtain rfl := Option.some.inj (hverbs.symm.trans hlisted)
    simp [hv]
  · obtain rfl := Option.some.inj (hverbs.symm.trans hlisted)
    rcases hrest with rfl | ⟨v, -, hv, rfl⟩
    · rfl
    · simp [hv]

theorem length_plannedCreators_le (hcheck : options.checkSize = true) :
    (m.plannedCreators options verbs entry).length ≤ options.budget - 1 := by
  unfold plannedCreators
  split
  · exact length_creationPlan_le hcheck
  · exact Nat.zero_le _

/-- **A call has at least one action and keeps to its budget**, if its size is checked. -/
theorem length_of_gives_build (hm : m.InUse c)
    (h : Gives (m.build key name options) source call source') :
    1 ≤ call.length ∧ (options.checkSize = true → call.length ≤ max options.budget 1) := by
  obtain ⟨t, verbs, entry, extra, -, -, -, houtline, hextra⟩ :=
    of_gives_build h fun t verbs => hm.nothing_follows
  have hlength := congrArg List.length houtline
  rw [Call.length_outline, List.length_append] at hlength
  rcases hextra with rfl | ⟨a, rfl, -, -, hroom, -⟩
  · rw [length_linkCreation, List.length_map, List.length_nil] at hlength
    refine ⟨by omega, fun hcheck => ?_⟩
    have hcreators : (m.plannedCreators options verbs entry).length ≤ options.budget - 1 :=
      length_plannedCreators_le hcheck
    omega
  · rw [List.length_singleton] at hlength
    exact ⟨by omega, fun _ => by omega⟩

end ResourceModel

end RestScenario
