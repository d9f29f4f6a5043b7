import RestScenario.Proofs.Learning.Regular

/-!
# Mutual relations are symmetric

Each member of a shared table owns a copy of the mutual relation, and the copies are changed one
member at a time. Under a member, evidence for a shared table reinforces a relation that covers all
members or makes a new one, and what lies inside the relation is taken in, so it brings no further
targets. Hence a member shares afterwards with whom it shared before, and with the other members
(`sharesWith_mergeShared`), whichever relations were merged.

Once all members have filed the evidence, the pairs that are new are those of any two members
(`shares_updateShared`), so sharing stays symmetric (`mutual_relations_symmetric`).
-/

namespace RestScenario

namespace Knowledge

open RestScenario.Relation

variable {key source target table tag : String} {targets members : SortedSet String}
  {probability : Float} {confirmed conflicting : Bool} {base : Relation} {rs others : List Relation}

/-! ## Lists of relations -/

/-- Some mutual relation has the target. -/
def SharesWith (rs : List Relation) (target : String) : Prop :=
  ∃ r ∈ rs, r.isMutual = true ∧ target ∈ r.targets

theorem sharesWith_cons {r : Relation} :
    SharesWith (r :: rs) target ↔ (r.isMutual = true ∧ target ∈ r.targets) ∨ SharesWith rs target :=
  List.exists_mem_cons_iff ..

theorem sharesWith_append :
    SharesWith (rs ++ others) target ↔ SharesWith rs target ∨ SharesWith others target := by
  unfold SharesWith
  simp only [List.mem_append, or_and_right, exists_or]

theorem not_isMutual_simple : (simple key targets probability tag).isMutual = false := by
  unfold isMutual simple
  dsimp only
  split
  · rename_i hkind
    split at hkind <;> cases hkind
  · rfl

/-- Evidence for a dependency makes no relation mutual, and changes no targets. -/
theorem sharesWith_reinforceOrAdd :
    SharesWith (reinforceOrAdd key targets tag probability conflicting rs) target ↔
      SharesWith rs target := by
  induction rs with
  | nil => simp [reinforceOrAdd, SharesWith, not_isMutual_simple]
  | cons r rest ih =>
    unfold reinforceOrAdd
    split
    · rw [sharesWith_cons, sharesWith_cons]
      exact Iff.rfl
    · rw [sharesWith_cons, ih, sharesWith_cons]

theorem sharesWith_takeIn (hmutual : base.isMutual = true) (hbase : base.Regular key)
    (h : RegularList key others) :
    SharesWith (takeIn base others) target ↔ target ∈ base.targets ∨ SharesWith others target := by
  obtain ⟨hstays, hmerged, htargets⟩ := regular_absorb_narrower hmutual hbase h
  unfold takeIn
  rw [sharesWith_append]
  constructor
  · rintro (⟨r, hr, hshared, ht⟩ | ⟨r, hr, -, ht⟩)
    · exact .inr ⟨r, (List.mem_filter.1 hr).1, hshared, ht⟩
    · obtain rfl := List.mem_singleton.1 hr
      exact .inl ((htargets target).1 ht)
  · rintro (ht | ⟨r, hr, hshared, ht⟩)
    · exact .inr ⟨_, List.mem_singleton_self _, hstays, (htargets target).2 ht⟩
    · cases hnarrower : isNarrower base.members r with
      | false =>
        exact .inl ⟨r, List.mem_filter.2 ⟨hr, by rw [hnarrower]; rfl⟩, hshared, ht⟩
      | true =>
        have hmem := (isNarrower_iff.1 hnarrower).2 target (mem_members.2 (.inr ht))
        have hbefore : target ∈ base.targets := by
          rcases mem_members.1 hmem with rfl | hbefore
          · rw [hbase.source] at ht
            exact absurd ht ((h.regular r hr).others hshared)
          · exact hbefore
        exact .inr ⟨_, List.mem_singleton_self _, hstays, (htargets target).2 hbefore⟩

/-- **A member shares with whom it shared before, and with the other members.** -/
theorem sharesWith_mergeShared (h : RegularList key rs) :
    SharesWith (mergeShared key members table probability confirmed tag rs) target ↔
      SharesWith rs target ∨ target ∈ members ∧ target ≠ key := by
  obtain hmerged | ⟨front, r, back, rfl, hcovers, hmerged⟩ :=
    mergeShared_cases key members table probability confirmed tag rs
  · rw [hmerged, sharesWith_takeIn rfl regular_shared h, or_comm]
    refine or_congr_right ?_
    show target ∈ members.filter (· ≠ key) ↔ _
    rw [SortedSet.mem_filter, decide_eq_true_iff]
  · obtain ⟨hmutual, hmembers⟩ := Bool.and_eq_true_iff.1 hcovers
    have hr : r.Regular key := h.regular r (by simp)
    obtain ⟨hstays, hbase, htargets⟩ := regular_covering hr hcovers
    rw [hmerged, sharesWith_takeIn hstays hbase h.of_middle, htargets]
    have hrs : SharesWith (front ++ r :: back) target ↔
        target ∈ r.targets ∨ SharesWith (front ++ back) target := by
      rw [sharesWith_append, sharesWith_cons, sharesWith_append, and_iff_right hmutual,
        or_left_comm]
    -- the covering relation has the other members among its targets already
    have hcovered : target ∈ members ∧ target ≠ key → target ∈ r.targets := by
      rintro ⟨hmem, hne⟩
      rcases mem_members.1 (SortedSet.isSubset_iff.1 hmembers target hmem) with rfl | ht
      · exact absurd hr.source hne
      · exact ht
    rw [hrs]
    tauto

/-! ## The store -/

/-- Some mutual relation of the source has the target. -/
def Shares (k : Knowledge) (source target : String) : Prop :=
  SharesWith (k.relationsOf source) target

/-- Whoever shares with another, the other shares with it. -/
def IsSymmetric (k : Knowledge) : Prop :=
  ∀ source target, k.Shares source target → k.Shares target source

variable {k : Knowledge}

theorem shares_updateDependency {source' : String} :
    (k.updateDependency source targets tag probability).Shares source' target ↔
      k.Shares source' target := by
  by_cases hkey : source' = source
  · subst hkey
    unfold updateDependency
    split
    · rfl
    · unfold Shares
      rw [relationsOf_upsert_self]
      exact sharesWith_reinforceOrAdd
  · unfold Shares
    rw [relationsOf_updateDependency_of_ne hkey]

theorem shares_fileShared {member : String} (hk : k.RegularStore) :
    (k.fileShared member members table probability confirmed tag).Shares source target ↔
      k.Shares source target ∨ source = member ∧ target ∈ members ∧ target ≠ source := by
  unfold Shares fileShared
  by_cases hsource : source = member
  · subst hsource
    rw [relationsOf_upsert_self, and_iff_right rfl]
    exact sharesWith_mergeShared (hk source)
  · rw [relationsOf_upsert_of_ne hsource]
    simp [hsource]

/-- **Once all members have filed the evidence, any two of them share.** -/
theorem shares_updateShared (hk : k.RegularStore) :
    (k.updateShared members table probability confirmed tag).Shares source target ↔
      k.Shares source target ∨ source ∈ members ∧ target ∈ members ∧ target ≠ source := by
  suffices ∀ filing : List String, (∀ member ∈ filing, member ∈ members) → ∀ k : Knowledge,
      k.RegularStore →
      ((filing.foldl (fun k member =>
        k.fileShared member members table probability confirmed tag) k).Shares source target ↔
        k.Shares source target ∨ source ∈ filing ∧ target ∈ members ∧ target ≠ source) from
    this members.toList (fun _ h => h) k hk
  intro filing
  induction filing with
  | nil => simp
  | cons member rest ih =>
    intro hfiling k hk
    obtain ⟨hmember, hrest⟩ := List.forall_mem_cons.1 hfiling
    rw [List.foldl_cons, ih hrest _ (outlasts_regularStore.shared trivial hmember hk),
      shares_fileShared hk, List.mem_cons, or_assoc, ← or_and_right]

theorem isSymmetric_updateShared (hk : k.RegularStore) (h : k.IsSymmetric) :
    (k.updateShared members table probability confirmed tag).IsSymmetric := by
  intro source target hshares
  rw [shares_updateShared hk] at hshares ⊢
  rcases hshares with hshares | ⟨hsource, htarget, hne⟩
  · exact .inl (h source target hshares)
  · exact .inr ⟨htarget, hsource, hne.symm⟩

/-- Symmetry outlasts all evidence that every member has filed. -/
theorem outlastsWhole_isSymmetric :
    OutlastsWhole (fun _ => True) fun k => k.RegularStore ∧ k.IsSymmetric where
  defined := fun _ => trivial
  threshold := fun _ => trivial
  frame := by
    rintro k k' ⟨hk, h⟩ hthreshold hdependencies
    refine ⟨outlasts_regularStore.frame hk hthreshold hdependencies, ?_⟩
    unfold IsSymmetric Shares relationsOf
    rw [hdependencies]
    exact h
  dependency := by
    rintro k source targets tag p hp ⟨hk, h⟩
    refine ⟨outlasts_regularStore.dependency hp hk, fun source' target hshares => ?_⟩
    rw [shares_updateDependency] at hshares ⊢
    exact h source' target hshares
  shared := by
    rintro k members table p confirmed tag hp ⟨hk, h⟩
    exact ⟨outlasts_regularStore.whole.shared hp hk, isSymmetric_updateShared hk h⟩

theorem isSymmetric_empty (threshold : Float) (tokenParser : Bool) :
    (empty threshold tokenParser).IsSymmetric :=
  fun _ _ ⟨_, hr, _⟩ => absurd hr List.not_mem_nil

end Knowledge

/-- **Mutual relations are symmetric after any lessons.** Whoever has a mutual relation with a target
is itself a target of a mutual relation that the other one has. -/
theorem mutual_relations_symmetric {threshold : Float} {tokenParser : Bool} {lessons : List Lesson}
    {source target : String} {r : Relation} :
    let k := (Knowledge.empty threshold tokenParser).learnAll lessons
    r ∈ k.relationsOf source → r.isMutual = true → target ∈ r.targets →
      ∃ r' ∈ k.relationsOf target, r'.isMutual = true ∧ source ∈ r'.targets := by
  intro k hr hmutual htarget
  have hadmitted : ∀ lesson ∈ lessons, lesson.Admitted fun _ => True := by
    intro lesson _
    cases lesson <;> trivial
  obtain ⟨-, symmetric⟩ := Knowledge.outlastsWhole_isSymmetric.learnAll hadmitted
    ⟨Knowledge.regularStore_empty threshold tokenParser,
      Knowledge.isSymmetric_empty threshold tokenParser⟩
  exact symmetric source target ⟨r, hr, hmutual, htarget⟩

namespace Sample

/-- Three resources share a table, and then two of them a second one. -/
def stockAndOrders : List Lesson :=
  hint ++ objection ++
    [.shared (.ofList ["/items", "/users"]) "orders" 0.5 false "table:orders"]

end Sample

open Sample in
theorem carts_and_users_share_stock :
    let k := (Knowledge.empty 0.6 true).learnAll stockAndOrders
    (∃ r ∈ k.relationsOf "/users", r.isMutual = true ∧ "/carts" ∈ r.targets) ∧
      ∃ r ∈ k.relationsOf "/carts", r.isMutual = true ∧ "/users" ∈ r.targets := by
  intro k
  have learned : ∃ r ∈ k.relationsOf "/users", r.isMutual = true ∧ "/carts" ∈ r.targets := by
    decide +kernel
  obtain ⟨r, hr, hmutual, htarget⟩ := learned
  exact ⟨⟨r, hr, hmutual, htarget⟩, mutual_relations_symmetric hr hmutual htarget⟩

end RestScenario
