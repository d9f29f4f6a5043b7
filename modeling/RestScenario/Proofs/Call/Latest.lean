import RestScenario.Proofs.Call.Instance
import RestScenario.Proofs.Path

/-!
# The latest values of what comes before a call

A call that follows others takes over their path values, one action after another. Where variables
are declared and names are apart (`Action.NamesVariables`), this is told level by level of the path.

**Step.** An action that follows another on its path or an ancestor has the value of the other one
at the levels that the other one reaches, and its own beyond (`Action.levelValue?_follow`).

**Run.** So after following several actions, each level has the value of the last of those that
reach it (`Call.levelValue?_followAll`). A realignment keeps the values of the target and gives them
to the other actions as far as their paths match (`Action.levelValue?_realigned`).

Main statement: `bound_calls_take_latest_values`.
-/

namespace RestScenario

/-! ## Levels on which two paths match -/

namespace PathTemplate

variable {p q : PathTemplate} {n : Nat} {e f : Element}

theorem agrees_of_mem_matching (h : (e, f) ∈ p.matching q) : e.agrees f = true :=
  (List.mem_takeWhile_imp h :)

theorem agrees_of_mem_take (h : n ≤ p.commonLevels q) :
    ∀ e ∈ (p.elements.zip q.elements).take n, e.1.agrees e.2 = true := by
  obtain ⟨rest, hrest⟩ : p.matching q <+: p.elements.zip q.elements := List.takeWhile_prefix _
  intro e he
  rw [← hrest, List.take_append_of_le_length h] at he
  exact agrees_of_mem_matching (List.mem_of_mem_take he)

theorem exists_of_lt_commonLevels (h : n < p.commonLevels q) : ∃ e f,
    p.elements[n]? = some e ∧ q.elements[n]? = some f ∧ e.agrees f = true := by
  obtain ⟨⟨e, f⟩, hpair⟩ : ∃ pair, (p.matching q)[n]? = some pair :=
    ⟨_, List.getElem?_eq_getElem h⟩
  obtain ⟨-, he, hf⟩ := getElem?_matching.1 hpair
  exact ⟨e, f, he, hf, agrees_of_mem_matching (List.mem_of_getElem? hpair)⟩

/-- A path matches the same path, and one below it, as far as it goes. -/
theorem commonLevels_of_isSameOrAncestorOf (h : q.isSameOrAncestorOf p = true) :
    p.commonLevels q = q.levels := by
  obtain ⟨hlevels, hagree⟩ := isSameOrAncestorOf_iff.1 h
  have hall : ∀ e ∈ p.elements.zip q.elements, e.1.agrees e.2 = true := by
    intro e he
    obtain ⟨n, hn⟩ := List.mem_iff_getElem?.1 he
    obtain ⟨hp, hq⟩ := List.getElem?_zip_eq_some.1 hn
    exact agrees_symm (agree_iff.1 hagree n _ _ hq hp)
  rw [commonLevels, matching, List.takeWhile_eq_self_iff.2 hall, List.length_zip]
  exact Nat.min_eq_right hlevels

end PathTemplate

namespace Action

variable {a b o : Action} {n : Nat} {x : String}

/-! ## Values by level -/

/-- The value of the variable at a level of the path. -/
def levelValue? (a : Action) (n : Nat) : Option Value :=
  match a.path.elements[n]? with
  | some (.var x) => pathValue? a.params x
  | _ => none

theorem levelValue?_of_var (h : a.path.elements[n]? = some (.var x)) :
    a.levelValue? n = pathValue? a.params x := by
  rw [levelValue?, h]

theorem levelValue?_congr (hpath : b.path = a.path)
    (hvalues : ∀ x, pathValue? b.params x = pathValue? a.params x) :
    b.levelValue? n = a.levelValue? n := by
  simp only [levelValue?, hpath, hvalues]

theorem exists_var_of_levelValue? (h : (a.levelValue? n).isSome) :
    ∃ x, a.path.elements[n]? = some (.var x) := by
  unfold levelValue? at h
  split at h
  · exact ⟨_, ‹_›⟩
  · cases h

theorem lt_levels_of_levelValue? (h : (a.levelValue? n).isSome) : n < a.path.levels := by
  obtain ⟨x, hx⟩ := exists_var_of_levelValue? h
  exact (List.getElem?_eq_some_iff.1 hx).1

theorem isSome_pathValue?_follow :
    (pathValue? (a.follow o).params x).isSome = (pathValue? a.params x).isSome := by
  rw [pathValue?_follow, pathValue?_followPath, Option.isSome_map]

theorem isSome_levelValue?_follow : ((a.follow o).levelValue? n).isSome = (a.levelValue? n).isSome := by
  have hpath : (a.follow o).path = a.path := rfl
  unfold levelValue?
  rw [hpath]
  split
  · exact isSome_pathValue?_follow
  · rfl

theorem DeclaresPath.exists_levelValue (ha : a.DeclaresPath)
    (hx : a.path.elements[n]? = some (.var x)) : ∃ v, a.levelValue? n = some v := by
  obtain ⟨v, hv⟩ := ha.exists_pathValue hx
  exact ⟨v, (levelValue?_of_var hx).trans hv⟩

theorem PathsLead.levelValue?_shareValues (ha : a.PathsLead) :
    a.shareValues.levelValue? n = a.levelValue? n :=
  levelValue?_congr rfl fun _ => ha.pathValue?_shareValues

/-- Beyond the levels on which two paths match, nothing is taken over for a variable. -/
theorem lookup_takenFrom_of_le (hdistinct : a.path.variableNames.Nodup)
    (hx : a.path.elements[n]? = some (.var x)) (hn : a.path.commonLevels o.path ≤ n) :
    (a.takenFrom o).reverse.lookup x = none := by
  refine List.lookup_eq_none_iff.2 fun taken htaken => ?_
  obtain ⟨⟨mine, theirs⟩, hmem, heq⟩ := List.mem_filterMap.1 (List.mem_reverse.1 htaken)
  obtain ⟨w, -, rfl⟩ := Option.map_eq_some_iff.1 heq
  obtain ⟨m, hm, hmine, -⟩ := mem_sharedVariables_iff.1 hmem
  simp only [bne_iff_ne, ne_eq]
  -- the variable stands at this level alone
  rintro rfl
  exact absurd (PathTemplate.level_unique hdistinct hmine hx ▸ hm) (Nat.not_lt.2 hn)

/-- An action that follows the path of another one has its values as far as both paths match, and
keeps its own beyond. -/
theorem levelValue?_followPath (ha : a.DeclaresPath) (ho : o.DeclaresPath) :
    (a.followPath o).levelValue? n =
      if n < a.path.commonLevels o.path then o.levelValue? n else a.levelValue? n := by
  have hpath : (a.followPath o).path = a.path := rfl
  by_cases hn : n < a.path.commonLevels o.path
  · rw [if_pos hn]
    obtain ⟨e, f, he, hf, hagrees⟩ := PathTemplate.exists_of_lt_commonLevels hn
    cases e with
    | literal s =>
      cases f with
      | literal s' => simp [levelValue?, hpath, he, hf]
      | var y => contradiction
    | var x =>
      cases f with
      | literal s' => contradiction
      | var y =>
        obtain ⟨v, hv⟩ := ha.exists_pathValue he
        obtain ⟨w, hw⟩ := ho.exists_pathValue hf
        have htaken : (a.takenFrom o).reverse.lookup x = some w :=
          lookup_takenFrom ha.1 (PathTemplate.agrees_of_mem_take hn.le) he hf hw
        rw [levelValue?_of_var (hpath ▸ he), levelValue?_of_var hf, pathValue?_followPath, hv, hw,
          htaken]
        rfl
  · rw [if_neg hn]
    cases he : a.path.elements[n]? with
    | none => simp [levelValue?, hpath, he]
    | some e =>
      cases e with
      | literal s => simp [levelValue?, hpath, he]
      | var x =>
        rw [levelValue?_of_var (hpath ▸ he), levelValue?_of_var he, pathValue?_followPath,
          lookup_takenFrom_of_le ha.1 he (Nat.not_lt.1 hn)]
        simp

/-- An action that follows another one on its path, or on an ancestor of it, has the values of the
other one as far as that goes. -/
theorem levelValue?_follow (ha : a.DeclaresPath) (ho : o.DeclaresPath)
    (h : o.path.isSameOrAncestorOf a.path = true) : (a.follow o).levelValue? n =
      if n < o.path.levels then o.levelValue? n else a.levelValue? n := by
  rw [← PathTemplate.commonLevels_of_isSameOrAncestorOf h, ← levelValue?_followPath ha ho]
  exact levelValue?_congr rfl fun _ => pathValue?_follow

/-- In a realignment an action gets the values of the target as far as their paths match. -/
theorem levelValue?_realigned (ha : a.DeclaresPath) (hlead : a.PathsLead) (ho : o.DeclaresPath)
    (holead : o.PathsLead) (hn : n < a.path.commonLevels o.path) :
    (a.followPath o).shareValues.levelValue? n = o.shareValues.levelValue? n := by
  rw [(hlead.of_labels labels_followPath).levelValue?_shareValues, holead.levelValue?_shareValues,
    levelValue?_followPath ha ho, if_pos hn]

end Action

/-! ## Following several actions -/

namespace Call

variable {a : Action} {c : Call} {front : List Action} {path : PathTemplate} {n : Nat}

/-- The last of several actions that are on a path, or on an ancestor of it, and reach a level. -/
def latestOn? (front : List Action) (path : PathTemplate) (n : Nat) : Option Action :=
  (front.filter fun o => o.path.isSameOrAncestorOf path && n < o.path.levels).getLast?

theorem latestOn?_cons {o : Action} : latestOn? (o :: front) path n =
    (latestOn? front path n).or
      (if o.path.isSameOrAncestorOf path = true ∧ n < o.path.levels then some o else none) := by
  by_cases h : o.path.isSameOrAncestorOf path = true ∧ n < o.path.levels
  · rw [if_pos h, latestOn?, List.filter_cons_of_pos (by simp [h]), List.getLast?_cons, latestOn?]
    cases List.getLast? _ <;> rfl
  · rw [if_neg h, Option.or_none, latestOn?, List.filter_cons_of_neg (by simpa using h), latestOn?]

/-- After following several actions, a level has the value of the last of those that reach it. -/
theorem levelValue?_followAll (ha : a.DeclaresPath) (hfront : ∀ o ∈ front, o.DeclaresPath) :
    (followAll front a).levelValue? n = ((latestOn? front a.path n).getD a).levelValue? n := by
  induction front generalizing a with
  | nil => rfl
  | cons o rest ih =>
    obtain ⟨ho, hrest⟩ := List.forall_mem_cons.1 hfront
    rw [latestOn?_cons]
    by_cases hfollows : o.path.isSameOrAncestorOf a.path = true
    · have hstep : followAll (o :: rest) a = followAll rest (a.follow o) := by
        rw [followAll, List.foldl_cons, if_pos hfollows, followAll]
      have hpath : (a.follow o).path = a.path := rfl
      rw [hstep, ih (ha.of_blank Action.blank_follow) hrest, hpath]
      cases latestOn? rest a.path n with
      | some latest => rfl
      | none =>
        simp only [Option.getD_none, Option.none_or, Action.levelValue?_follow ha ho hfollows]
        by_cases hn : n < o.path.levels <;> simp [hn, hfollows]
    · have hstep : followAll (o :: rest) a = followAll rest a := by
        rw [followAll, List.foldl_cons, if_neg hfollows, followAll]
      rw [hstep, ih ha hrest]
      simp [hfollows]

theorem isSome_pathValue?_followAll :
    (pathValue? (followAll front a).params x).isSome = (pathValue? a.params x).isSome := by
  unfold followAll
  refine List.foldlRecOn (motive := fun b : Action => (pathValue? b.params x).isSome = _) front _ rfl
    fun b hb o _ => ?_
  split
  · exact Action.isSome_pathValue?_follow.trans hb
  · exact hb

theorem path_followAll : (followAll front a).path = a.path := by
  have hpath : (followAll front a).blank.path = a.blank.path :=
    congrArg Action.path (blank_followAll a)
  exact hpath

theorem paths_bindWith : (c.bindWith front).actions.map (·.path) = c.actions.map (·.path) := by
  rw [bindWith, paths_realign, List.map_map]
  exact List.map_congr_left fun a _ => path_followAll

theorem targetIndex?_bindWith : (c.bindWith front).targetIndex? = c.targetIndex? := by
  rw [targetIndex?_eq, targetIndex?_eq, paths_bindWith]

/-- The target shares its values, and the other actions follow it. -/
theorem actions_bindWith {i : Nat} {target : Action} (hi : c.targetIndex? = some i)
    (ht : c.actions[i]? = some target) :
    (c.bindWith front).actions = (c.actions.map (followAll front)).mapIdx fun j a =>
      (if j = i then a else a.followPath (followAll front target)).shareValues := by
  have hfollowed : ({ c with actions := c.actions.map (followAll front) } : Call).targetIndex? =
      some i := targetIndex?_realign.symm.trans (targetIndex?_bindWith.trans hi)
  have htarget : (c.actions.map (followAll front))[i]? = some (followAll front target) := by
    rw [List.getElem?_map, ht, Option.map_some]
  rw [bindWith, realign_eq hfollowed htarget]

end Call

/-- **Calls take over the latest values.** Where the actions of a call, and those that it follows,
name the variables of their paths, the call has a target afterwards, at the place where it was. At
each variable of its path, that has the value of the last followed action which is on the path or an
ancestor of it and reaches the variable; if there is none, its own as before. The other actions have
the values of the target as far as their paths match. -/
theorem bound_calls_take_latest_values {c : Call} {front : List Action} (hne : c.actions ≠ [])
    (hnames : ∀ a ∈ c.actions ++ front, a.NamesVariables) :
    ∃ i target bound, c.targetIndex? = some i ∧ c.actions[i]? = some target ∧
      (c.bindWith front).targetIndex? = some i ∧ (c.bindWith front).actions[i]? = some bound ∧
      (c.bindWith front).actions.map (·.path) = c.actions.map (·.path) ∧
      (∀ n x, target.path.elements[n]? = some (.var x) → ∃ v, bound.levelValue? n = some v ∧
        ((Call.latestOn? front target.path n).getD target).levelValue? n = some v) ∧
      ∀ a ∈ (c.bindWith front).actions, ∀ n < a.path.commonLevels bound.path,
        a.levelValue? n = bound.levelValue? n := by
  obtain ⟨i, target, hi, ht⟩ := Call.exists_target hne
  have htarget := List.mem_of_getElem? ht
  have hdeclares : ∀ a ∈ c.actions, a.DeclaresPath := fun a ha =>
    (hnames a (List.mem_append_left _ ha)).declaresPath
  have hfront : ∀ o ∈ front, o.DeclaresPath := fun o ho =>
    (hnames o (List.mem_append_right _ ho)).declaresPath
  -- following others changes neither what is declared nor what leads
  have hdeclared : ∀ a ∈ c.actions, (Call.followAll front a).DeclaresPath := fun a ha =>
    (hdeclares a ha).of_blank (Call.blank_followAll a)
  have hlead : ∀ a ∈ c.actions, (Call.followAll front a).PathsLead := fun a ha =>
    (Action.pathsLead_of_nodup (hnames a (List.mem_append_left _ ha)).apart).of_labels
      Call.labels_followAll
  refine ⟨i, target, (Call.followAll front target).shareValues, hi, ht,
    Call.targetIndex?_bindWith.trans hi, ?_, Call.paths_bindWith, fun n x hx => ?_,
    fun a ha n hn => ?_⟩
  · rw [Call.actions_bindWith hi ht]
    simp [ht]
  · obtain ⟨v, hv⟩ := (hdeclared target htarget).exists_levelValue (Call.path_followAll ▸ hx)
    refine ⟨v, (hlead target htarget).levelValue?_shareValues.trans hv, ?_⟩
    rw [← hv, Call.levelValue?_followAll (hdeclares target htarget) hfront]
  · rw [Call.actions_bindWith hi ht] at ha
    obtain ⟨j, hj, rfl⟩ := List.mem_mapIdx.1 ha
    rw [List.length_map] at hj
    have hmem : c.actions[j] ∈ c.actions := List.getElem_mem hj
    rw [List.getElem_map] at hn ⊢
    by_cases hij : j = i
    · subst hij
      obtain rfl : c.actions[j] = target := by simpa [hj] using ht
      rw [if_pos rfl]
    · rw [if_neg hij] at hn ⊢
      exact Action.levelValue?_realigned (hdeclared _ hmem) (hlead _ hmem)
        (hdeclared _ htarget) (hlead _ htarget) hn

namespace Sample

/-- Reading what a path addresses, with a number for each of its variables. -/
def readingAt (elements : List Element) (numbers : List (String × Int)) : Action :=
  ⟨.get, ⟨elements⟩, numbers.map fun (name, n) => ⟨name, .path, .integer, true, none, .int n⟩,
    false, none, none⟩

/-- The carts of a user are read, then an item of an order. -/
def cartThenItem : Call :=
  let cart := readingAt [.literal "users", .var "id", .literal "carts", .var "cart"]
    [("id", 8), ("cart", 9)]
  let item := readingAt [.literal "users", .var "id", .literal "orders", .var "order",
    .literal "items", .var "item"] [("id", 1), ("order", 2), ("item", 3)]
  .unseeded (.unvisited "GET" true 1) (.ofAction "/items" item) [cart, item] .notExisting

/-- Before it, users and an order were read. -/
def usersAndOrder : List Action :=
  [readingAt [.literal "users", .var "user"] [("user", 4)],
    readingAt [.literal "Users", .var "user", .literal "orders", .var "number"]
      [("user", 5), ("number", 7)],
    readingAt [.literal "users", .var "id"] [("id", 6)]]

end Sample

open Sample in
theorem item_is_read_for_latest_user_and_order :
    (cartThenItem.actions ≠ [] ∧ ∀ a ∈ cartThenItem.actions ++ usersAndOrder, a.NamesVariables) ∧
      (cartThenItem.bindWith usersAndOrder).actions.map Action.resolvedPath =
        ["/users/6/carts/9", "/users/6/orders/7/items/3"] ∧
      ∃ bound, (cartThenItem.bindWith usersAndOrder).actions[1]? = some bound ∧
        ∀ a ∈ (cartThenItem.bindWith usersAndOrder).actions, ∀ n < a.path.commonLevels bound.path,
          a.levelValue? n = bound.levelValue? n := by
  have hnames : ∀ a ∈ cartThenItem.actions ++ usersAndOrder, a.NamesVariables := by decide +kernel
  refine ⟨⟨by decide, hnames⟩, by decide +kernel, ?_⟩
  obtain ⟨i, target, bound, hi, -, -, hbound, -, -, hothers⟩ :=
    bound_calls_take_latest_values (show cartThenItem.actions ≠ [] by decide) hnames
  obtain rfl : i = 1 := Option.some.inj (hi.symm.trans (by decide +kernel))
  exact ⟨bound, hbound, hothers⟩

end RestScenario
