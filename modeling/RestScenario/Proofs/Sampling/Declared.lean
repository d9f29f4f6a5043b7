import RestScenario.Proofs.Sampling.Size

/-!
# Declared actions

Every action of a built call is one of the catalogue, but for its values, its locations and its
credentials: the target of a template and its creators are found on sites, and what is done to them
afterwards leaves their signatures (`ResourceModel.declared_of_gives_build`). No path has to be read
for this.
-/

namespace RestScenario

/-- The catalogue has an action that is the same but for values, locations and credentials. -/
def Catalogue.Declares (c : Catalogue) (a : Action) : Prop := ∃ b ∈ c.actions, b.signature = a.signature

theorem Catalogue.Declares.congr {c : Catalogue} {a b : Action} (h : c.Declares a)
    (hsame : a.signature = b.signature) : c.Declares b := by
  obtain ⟨declared, hmem, hdeclared⟩ := h
  exact ⟨declared, hmem, hdeclared.trans hsame⟩

/-! ## Actions of sites -/

namespace Sites

variable {c : Catalogue} {s : Site} {a : Action} {key exclude : String} {path : PathTemplate}

/-- Whatever the path is, what may create it stands on a site. -/
theorem exists_site_of_mem_owners {sites : Sites} (h : s ∈ sites.owners path) :
    ∃ key, sites.get? key = some s := by
  unfold owners at h
  split at h
  · rename_i own hown
    rcases List.mem_cons.1 h with rfl | h
    · exact ⟨_, hown⟩
    · obtain ⟨key, -, hget⟩ := List.mem_filterMap.1 h
      exact ⟨key, hget⟩
  · exact SortedMap.mem_values_iff.1 (List.mem_filter.1 h).1

theorem mem_of_mem_creatorsFor (h : a ∈ (ofCatalogue c).creatorsFor path exclude) : a ∈ c.actions := by
  obtain ⟨owner, howner, hpost⟩ := exists_owner_of_mem_creatorsFor h
  obtain ⟨key, hs⟩ := exists_site_of_mem_owners howner
  exact mem_of_mem_actions hs (mem_of_action? hpost)

end Sites

/-! ## Actions of built calls -/

section Building

variable {c : Catalogue} {m : ResourceModel} {options : SamplingOptions} {a entry target : Action}
  {planned : Nat} {key name : String} {verbs : List Verb} {creators : List Action} {v : Verb}
  {call : Call} {source source' : Random.Source}

theorem mem_of_mem_creationPlan
    (h : a ∈ (creationPlan (Sites.ofCatalogue c) options target planned).1) : a ∈ c.actions := by
  induction target, planned using creationPlan.induct (Sites.ofCatalogue c) options with
  | case1 target planned hfree => simp [creationPlan, hfree] at h
  | case2 target planned hneeds hfull =>
    rw [creationPlan, if_neg hneeds, if_pos hfull] at h
    cases h
  | case3 target planned hneeds hroom hnone =>
    rw [creationPlan, if_neg hneeds, if_neg hroom, hnone] at h
    cases h
  | case4 target planned hneeds hroom creator hcreator hrank outer nested hplan ih =>
    rw [creationPlan, if_neg hneeds, if_neg hroom, hcreator] at h
    dsimp only at h
    rw [if_pos hrank, hplan] at h
    rw [hplan] at ih
    rcases List.mem_cons.1 h with rfl | h
    · exact Sites.mem_of_mem_creatorsFor (List.mem_of_mem_head? hcreator)
    · exact ih h
  | case5 target planned hneeds hroom creator hcreator hrank =>
    rw [creationPlan, if_neg hneeds, if_neg hroom, hcreator] at h
    dsimp only at h
    rw [if_neg hrank] at h
    cases h

/-- Linked creators and their target have the signatures that they had before. -/
theorem exists_signature_of_mem_linkCreation (h : a ∈ linkCreation target creators) :
    ∃ b ∈ target :: creators, b.signature = a.signature := by
  have image : (linkCreation target creators).map Action.signature = _ := map_linkCreation fun _ _ _ => rfl
  have hmem := image ▸ List.mem_map_of_mem h
  obtain ⟨b, hb, hsame⟩ := List.mem_map.1 hmem
  exact ⟨b, by simpa [or_comm] using hb, hsame⟩

namespace ResourceModel

theorem InUse.mem_of_actionOf (hm : m.InUse c) (h : m.actionOf key v = .ok a) : a ∈ c.actions := by
  obtain ⟨r, hr, hown⟩ := actionOf_eq_ok h
  exact Sites.mem_of_mem_actions (hm.sites_eq ▸ hm.site hr) (Sites.mem_of_action? hown)

/-- A template aims at an action of the catalogue. -/
theorem InUse.mem_of_targetOf (hm : m.InUse c) (h : m.targetOf key verbs = .ok entry) :
    entry ∈ c.actions := by
  rcases targetOf_eq_ok h with ⟨v, -, hv⟩ | ⟨-, r, hr, hfirst⟩
  · exact hm.mem_of_actionOf hv
  · rcases Option.or_eq_some_iff.1 hfirst with hown | ⟨-, hcreator⟩
    · exact Sites.mem_of_mem_actions (hm.sites_eq ▸ hm.site hr) (Sites.mem_of_action? hown)
    · rw [hm.sites_eq] at hcreator
      exact Sites.mem_of_mem_creatorsFor (List.mem_of_mem_head? hcreator)

theorem InUse.mem_of_mem_plannedCreators (hm : m.InUse c)
    (h : a ∈ m.plannedCreators options verbs entry) : a ∈ c.actions := by
  unfold plannedCreators at h
  split at h
  · rw [hm.sites_eq] at h
    exact mem_of_mem_creationPlan h
  · cases h

/-- **The actions of a built call are declared.** -/
theorem declared_of_gives_build (hm : m.InUse c)
    (h : Gives (m.build key name options) source call source') :
    ∀ a ∈ call.outline, c.Declares a := by
  obtain ⟨t, verbs, entry, extra, -, -, hentry, houtline, hextra⟩ :=
    of_gives_build h fun t verbs => hm.nothing_follows
  have hcreators : ∀ b ∈ entry :: m.plannedCreators options verbs entry, b ∈ c.actions :=
    List.forall_mem_cons.2 ⟨hm.mem_of_targetOf hentry, fun b => hm.mem_of_mem_plannedCreators⟩
  intro a ha
  rw [houtline] at ha
  rcases List.mem_append.1 ha with ha | ha
  · obtain ⟨b, hb, hsame⟩ := exists_signature_of_mem_linkCreation ha
    obtain ⟨b, hmem, rfl⟩ := List.mem_map.1 (show b ∈
      (entry :: m.plannedCreators options verbs entry).map Action.outline from hb)
    exact ⟨b, hcreators b hmem, Action.signature_outline.symm.trans hsame⟩
  · rcases hextra with rfl | ⟨x, rfl, -, -, -, patch, hpatch, rfl⟩
    · cases ha
    · obtain rfl := List.mem_singleton.1 ha
      exact ⟨patch, hm.mem_of_actionOf hpatch, Action.signature_outline.symm⟩

end ResourceModel

end Building

end RestScenario
