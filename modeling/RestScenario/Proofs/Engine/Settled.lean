import RestScenario.Proofs.Engine.Obtained
import RestScenario.Proofs.Engine.Refused
import RestScenario.Proofs.Scenario.Repair

/-!
# Settled scenarios

A repair is the last that is done to a scenario which is obtained with a catalogue, and a second one
need not change anything unless a path parameter shares its name with another parameter. The actions
of obtained scenarios are those of the catalogue, so where none of these has two plain parameters of
one name, every obtained scenario is settled (`Scenario.Obtained.settled`).
-/

namespace RestScenario

/-! ## Names of parameters -/

namespace Action

variable {a b : Action}

theorem plainNames_of_signature (h : a.signature = b.signature) : a.plainNames = b.plainNames := by
  have plain_blank : ∀ params : List Param,
      ((params.map Param.blank).filter fun p => !p.isBody).map (·.name) =
        (params.filter fun p => !p.isBody).map (·.name) := by
    intro params
    have test : ((fun p : Param => !p.isBody) ∘ Param.blank) = fun p => !p.isBody := by
      funext p
      obtain ⟨name, place, type, required, default, value⟩ := p
      cases place <;> rfl
    rw [List.filter_map, test, List.map_map]
    rfl
  obtain ⟨-, -, hparams⟩ := signature_eq_iff.1 h
  unfold plainNames
  rw [← plain_blank, hparams, plain_blank]

/-- Where no two plain parameters have one name, every path parameter leads under its own. -/
theorem pathSettled_of_nodup (h : a.plainNames.Nodup) : a.PathSettled := by
  intro p hp hpath first hfirst
  rw [first_eq_of_nodup h hp (Param.isBody_of_isPath hpath) hfirst]

end Action

/-- No action of the catalogue declares two parameters of one name, bodies apart. -/
def Catalogue.NamesApart (c : Catalogue) : Prop := ∀ a ∈ c.actions, a.plainNames.Nodup

instance : DecidablePred Catalogue.NamesApart := fun c =>
  inferInstanceAs (Decidable (∀ a ∈ c.actions, a.plainNames.Nodup))

theorem Catalogue.Declares.nodup_plainNames {c : Catalogue} {a : Action} (h : c.Declares a)
    (hc : c.NamesApart) : a.plainNames.Nodup := by
  obtain ⟨b, hb, hsame⟩ := h
  exact Action.plainNames_of_signature hsame ▸ hc b hb

/-! ## Obtained scenarios -/

namespace Scenario.Obtained

variable {c : Catalogue} {s : Scenario}

/-- **A repair comes last** in all that makes or changes scenarios. -/
theorem isRepaired (h : s.Obtained c) : s.IsRepaired := by
  induction h with
  | adHoc budget auth e e' scenarios s he h hs =>
    exact Composing.repaired_adHocScenarios.of_gives h s hs
  | related budget e e' s he h => exact Composing.repaired_relatedScenario.of_gives h s rfl
  | mutated budget ed m request hs he ih =>
    rcases Mutator.applied_or_kept m request ed with ⟨edit, positions, happlied⟩ | hkept
    · obtain ⟨_, ed₂, -, -, hrepair⟩ := Mutator.performed_of_serve happlied
      exact hrepair ▸ ed₂.scenario.isRepaired_repair
    · exact hkept ▸ ih

/-- **Obtained scenarios are settled**, where no action declares two plain parameters of one name. -/
theorem settled (h : s.Obtained c) (hc : c.NamesApart) : s.repair = s := by
  have hsound := h.sound
  obtain ⟨unrepaired, rfl⟩ := h.isRepaired
  rw [Scenario.outlines_repair] at hsound
  refine Scenario.repair_repair_eq_iff.2 fun call hcall target htarget => ?_
  obtain ⟨i, -, htarget⟩ := Option.bind_eq_some_iff.1 htarget
  have hdeclared : c.Declares target.outline :=
    (hsound _ (List.mem_map_of_mem hcall)).declared _
      (List.mem_map_of_mem (List.mem_of_getElem? htarget))
  exact Action.pathSettled_of_nodup
    ((hdeclared.congr Action.signature_outline).nodup_plainNames hc)

end Scenario.Obtained

end RestScenario
