import RestScenario.Proofs.Ordered.Map
import RestScenario.Resource.Template

/-!
# Templates of a resource

The templates of a resource are its single verbs other than `POST` and, if it is creatable, `POST`
itself and `POST` before one of the other verbs. The size of those that create counts their verbs
and the creating actions beyond the first (`Templates.of_growCreating`).
-/

namespace RestScenario.Templates

variable {ts : Templates} {own : List Verb} {creatable : Bool} {name : String} {t t' : Template}

theorem get?_add_self : (ts.add t).get? t.name = some t := SortedMap.get?_insert_self ..

theorem get?_add (h : (ts.add t).get? name = some t') :
    t' = t ∧ t.name = name ∨ ts.get? name = some t' := by
  unfold add at h
  by_cases hname : name = t.name
  · rw [hname, SortedMap.get?_insert_self, Option.some.injEq] at h
    exact .inl ⟨h.symm, hname.symm⟩
  · rw [SortedMap.get?_insert_of_ne _ hname] at h
    exact .inr h

theorem get?_foldl_add {new : List Template} (h : (new.foldl add ts).get? name = some t) :
    t ∈ new ∧ t.name = name ∨ ts.get? name = some t := by
  induction new generalizing ts with
  | nil => exact .inr h
  | cons first rest ih =>
    rcases ih h with ⟨hmem, hname⟩ | hrest
    · exact .inl ⟨List.mem_cons_of_mem _ hmem, hname⟩
    · rcases get?_add hrest with ⟨rfl, hname⟩ | hget
      · exact .inl ⟨List.mem_cons_self, hname⟩
      · exact .inr hget

/-- What a name stands for stays or is replaced when a template is added. -/
theorem isSome_get?_add (h : (ts.get? name).isSome = true) :
    ((ts.add t).get? name).isSome = true := by
  by_cases hname : name = t.name
  · rw [hname, get?_add_self]
    rfl
  · unfold add
    rwa [SortedMap.get?_insert_of_ne _ hname]

theorem isSome_get?_foldl_add {new : List Template} (h : (ts.get? name).isSome = true) :
    ((new.foldl add ts).get? name).isSome = true :=
  List.foldlRecOn (motive := fun ts : Templates => (ts.get? name).isSome = true) _ _ h
    fun _ h _ _ => isSome_get?_add h

theorem isSome_get?_foldl_add_of_mem {new : List Template} (h : t ∈ new) :
    ((new.foldl add ts).get? t.name).isSome = true := by
  induction new generalizing ts with
  | nil => cases h
  | cons first rest ih =>
    rw [List.foldl_cons]
    rcases List.mem_cons.1 h with rfl | h
    · exact isSome_get?_foldl_add (congrArg Option.isSome get?_add_self)
    · exact ih h

/-- The names that single verbs other than `POST` have do not start with `POST`. -/
theorem not_prefix_name {v : Verb} (hv : v ≠ .post) : ¬ "POST".toList <+: v.name.toList := by
  cases v <;> first | contradiction | decide

/-- Before they are sized, the templates are single verbs, and `POST` with at most one verb more,
with one action per verb. -/
theorem of_ofVerbs (h : (ofVerbs own creatable).get? name = some t) :
    t.name = name ∧ ((∃ v ∈ own, v ≠ .post ∧ t = .unvisited v.name true 1) ∨
      creatable = true ∧ ∃ rest : List Verb, (rest = [] ∨ ∃ v ∈ own, v ≠ .post ∧ rest = [v]) ∧
        t = .unvisited (Template.nameOf (.post :: rest)) false (rest.length + 1)) := by
  have other : ∀ v ∈ own.filter (· ≠ .post), v ∈ own ∧ v ≠ .post := by
    intro v hv
    obtain ⟨hown, hpost⟩ := List.mem_filter.1 hv
    exact ⟨hown, by simpa using hpost⟩
  have single : (((own.filter (· ≠ .post)).map fun v => Template.unvisited v.name true 1).foldl add
      SortedMap.empty).get? name = some t →
      t.name = name ∧ ∃ v ∈ own, v ≠ .post ∧ t = .unvisited v.name true 1 := by
    intro h
    rcases get?_foldl_add h with ⟨hmem, hname⟩ | hempty
    · obtain ⟨v, hv, rfl⟩ := List.mem_map.1 hmem
      obtain ⟨hown, hpost⟩ := other v hv
      exact ⟨hname, v, hown, hpost, rfl⟩
    · contradiction
  unfold ofVerbs at h
  dsimp only at h
  cases creatable with
  | false =>
    rw [if_neg Bool.false_ne_true] at h
    exact (single h).imp_right .inl
  | true =>
    rw [if_pos rfl] at h
    -- From the last addition to the first: `POST` before a verb, `POST` alone, single verbs.
    rcases get?_foldl_add h with ⟨hmem, hname⟩ | h
    · obtain ⟨v, hv, rfl⟩ := List.mem_map.1 hmem
      obtain ⟨hown, hpost⟩ := other v hv
      exact ⟨hname, .inr ⟨rfl, [v], .inr ⟨v, hown, hpost, rfl⟩, rfl⟩⟩
    · rcases get?_add h with ⟨rfl, hname⟩ | h
      · exact ⟨hname, .inr ⟨rfl, [], .inl rfl, rfl⟩⟩
      · exact (single h).imp_right .inl

/-- A creatable resource has `POST` among its templates. -/
theorem isSome_get?_post : ((ofVerbs own true).get? Verb.post.name).isSome = true := by
  unfold ofVerbs
  dsimp only
  rw [if_pos rfl]
  exact isSome_get?_foldl_add (congrArg Option.isSome get?_add_self)

/-- Every other verb of a resource has a template of its own. -/
theorem isSome_get?_single {v : Verb} (hown : v ∈ own) (hv : v ≠ .post) :
    ((ofVerbs own creatable).get? v.name).isSome = true := by
  have hmem : Template.unvisited v.name true 1 ∈
      (own.filter (· ≠ .post)).map fun v => Template.unvisited v.name true 1 :=
    List.mem_map_of_mem (List.mem_filter.2 ⟨hown, by simpa using hv⟩)
  have single : ((((own.filter (· ≠ .post)).map fun v => Template.unvisited v.name true 1).foldl add
      SortedMap.empty).get? v.name).isSome = true := isSome_get?_foldl_add_of_mem hmem
  unfold ofVerbs
  dsimp only
  split
  · exact isSome_get?_foldl_add (isSome_get?_add single)
  · exact single

theorem parseName?_nameOf {rest : List Verb} (h : rest = [] ∨ ∃ v, rest = [v]) :
    Template.parseName? (Template.nameOf (.post :: rest)) = some (.post :: rest) := by
  rcases h with rfl | ⟨v, rfl⟩
  · decide +kernel
  · cases v <;> decide +kernel

theorem contains_post_nameOf {rest : List Verb} (h : rest = [] ∨ ∃ v, rest = [v]) :
    (Template.parts (Template.nameOf (.post :: rest))).contains Verb.post.name = true := by
  rcases h with rfl | ⟨v, rfl⟩
  · decide +kernel
  · cases v <;> decide +kernel

theorem of_single {v : Verb} (h : v ≠ .post) :
    Template.parseName? v.name = some [v] ∧
      (Template.parts v.name).contains Verb.post.name = false := by
  cases v <;> first | contradiction | decide +kernel

theorem patch_of_contains {rest : List Verb} (h : rest = [] ∨ ∃ v, rest = [v])
    (hpatch : (Template.parts (Template.nameOf (.post :: rest))).contains Verb.patch.name = true) :
    rest = [.patch] := by
  rcases h with rfl | ⟨v, rfl⟩
  · exact absurd hpatch (by decide +kernel)
  · cases v <;> first | rfl | exact absurd hpatch (by decide +kernel)

/-- **The templates of a resource** are single verbs other than `POST`, which need no creation, and
`POST` with at most one verb more. The size of the latter counts the whole creation. -/
theorem of_growCreating {chainLength : Nat}
    (h : ((ofVerbs own creatable).growCreating chainLength).get? name = some t) :
    t.name = name ∧ ((∃ v ∈ own, v ≠ .post ∧ t.name = v.name ∧ t.verbs? = some [v] ∧
      t.independent = true ∧ t.size = 1) ∨
    creatable = true ∧ ∃ rest : List Verb, (rest = [] ∨ ∃ v ∈ own, v ≠ .post ∧ rest = [v]) ∧
      t.verbs? = some (.post :: rest) ∧ t.size = rest.length + 1 + (chainLength - 1) ∧
      (t.lists .patch = true → rest = [.patch])) := by
  unfold growCreating at h
  rw [SortedMap.get?_map, Option.map_eq_some_iff] at h
  obtain ⟨t, ht, rfl⟩ := h
  obtain ⟨hname, ⟨v, hown, hv, rfl⟩ | ⟨hcreatable, rest, hrest, rfl⟩⟩ := of_ofVerbs ht
  · obtain ⟨hverbs, hpost⟩ := of_single hv
    have hlists : ¬ (Template.unvisited v.name true 1).lists .post = true :=
      fun h => absurd (hpost.symm.trans h) Bool.false_ne_true
    rw [if_neg hlists]
    exact ⟨hname, .inl ⟨v, hown, hv, rfl, hverbs, rfl, rfl⟩⟩
  · have short : rest = [] ∨ ∃ v, rest = [v] :=
      hrest.imp_right fun ⟨v, _, _, heq⟩ => ⟨v, heq⟩
    have hlists : (Template.unvisited (Template.nameOf (.post :: rest)) false
        (rest.length + 1)).lists .post = true := contains_post_nameOf short
    rw [if_pos hlists]
    exact ⟨hname, .inr ⟨hcreatable, rest, hrest, parseName?_nameOf short, rfl,
      patch_of_contains short⟩⟩

/-- **A template that starts with `POST` lists at most one verb more, and its size counts the whole
creation.** -/
theorem of_creating {chainLength : Nat}
    (h : ((ofVerbs own creatable).growCreating chainLength).get? name = some t)
    (hstarts : "POST".toList <+: name.toList) :
    creatable = true ∧ ∃ rest : List Verb, (rest = [] ∨ ∃ v ∈ own, v ≠ .post ∧ rest = [v]) ∧
      t.verbs? = some (.post :: rest) ∧ t.size = rest.length + 1 + (chainLength - 1) := by
  obtain ⟨hname, ⟨v, -, hv, hsingle, -⟩ | ⟨hcreatable, rest, hrest, h⟩⟩ := of_growCreating h
  · rw [← hname, hsingle] at hstarts
    exact absurd hstarts (not_prefix_name hv)
  · exact ⟨hcreatable, rest, hrest, h.1, h.2.1⟩

end RestScenario.Templates
