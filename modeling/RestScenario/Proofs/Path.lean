import RestScenario.Proofs.Path.Grammar

/-!
# Paths that were read

An element of a template that was read is written, behind its slash, as a part that stands for it
(`Element.IsPlain`). So the key of a template, cut at its slashes, gives these parts back
(`PathTemplate.IsRead.bodies_of_key`), and it tells the elements (`PathTemplate.eq_of_key_eq`).

An element stands for its letters, whatever their case; a variable stands for anything, whatever its
name. What it stands for is its form (`Element.form`), and two elements agree exactly when their forms
are the same. So paths are compared by the lists of their forms: equivalent paths have the same forms,
and the forms of an ancestor are the first ones of all paths below it
(`PathTemplate.isEquivalent_iff_forms`, `PathTemplate.isAncestorOf_iff_forms`).

The ancestors of a path are its strict prefixes, element by element
(`PathTemplate.isAncestorOf_iff`). Being the same path or an ancestor is transitive, and takes
variables to variables level by level (`PathTemplate.exists_variable`).
-/

namespace RestScenario

/-! ## Elements -/

namespace Element

/-- The characters of an element, as written behind its slash. -/
def body : Element → List Char
  | literal s => s.toList
  | var v => '\x7b' :: (v.toList ++ ['\x7d'])

theorem toList_written (e : Element) : e.written.toList = '/' :: e.body := by
  cases e <;> simp [written, body]

/-- The element is written as a part of its own that stands for it. -/
structure IsPlain (e : Element) : Prop where
  nonempty : e.body ≠ []
  unslashed : '/' ∉ e.body
  denoted : PathTemplate.Denotes e.body e

/-- What an element stands for: a text up to letter case, or anything. -/
def form : Element → Option String
  | literal s => some (Text.lower s)
  | var _ => none

theorem agrees_iff {e f : Element} : e.agrees f = true ↔ e.form = f.form := by
  cases e <;> cases f <;> simp [agrees, form, Text.sameLetters_iff]

end Element

namespace PathTemplate

variable {part : List Char} {e : Element}

/-- An element is written as a part that stands for it. -/
theorem Denotes.body (h : Denotes part e) : Denotes e.body e := by
  cases h with
  | literal hopen hclose =>
    show Denotes (String.ofList part).toList _
    rw [String.toList_ofList]
    exact .literal hopen hclose
  | @var before inside after hopen hclose hnamed =>
    have hsub : ∀ c ∈ [] ++ Text.trimChars inside ++ [], c ∈ before ++ inside ++ after := by
      intro c hc
      have hinside : c ∈ inside := Text.trimChars_subset inside (by simpa using hc)
      simp [hinside]
    have hname : Text.trimChars (Text.trimChars inside) = Text.trimChars inside :=
      Text.trimChars_trimChars inside
    have hvar := Denotes.var (fun hmem => hopen (hsub _ hmem)) (fun hmem => hclose (hsub _ hmem))
      (by rwa [hname])
    rw [hname] at hvar
    show Denotes ('\x7b' :: ((String.ofList (Text.trimChars inside)).toList ++ ['\x7d'])) _
    rw [String.toList_ofList]
    exact hvar

theorem Denotes.isPlain (h : Denotes part e) (hne : part ≠ []) (hslash : '/' ∉ part) : e.IsPlain := by
  refine ⟨?_, ?_, h.body⟩
  · cases h with
    | literal => simpa [Element.body] using hne
    | var => simp [Element.body]
  · cases h with
    | literal => simpa [Element.body] using hslash
    | @var before inside after =>
      have hinside : '/' ∉ inside := by grind
      have hname : '/' ∉ Text.trimChars inside := fun hmem => hinside (Text.trimChars_subset inside hmem)
      simp [Element.body, hname]

/-! ## Templates -/

/-- The template was read from a text. -/
def IsRead (p : PathTemplate) : Prop := ∃ s, parse s = .ok p

variable {p q : PathTemplate}

theorem elements_inj : p.elements = q.elements ↔ p = q := by
  cases p
  cases q
  exact (mk.injEq ..).to_iff.symm

theorem IsRead.isPlain (h : p.IsRead) : ∀ e ∈ p.elements, e.IsPlain := by
  obtain ⟨s, hs⟩ := h
  intro e he
  obtain ⟨part, hpart, hdenotes⟩ := exists_mem_of_forall₂ (parse_eq_ok_iff.1 hs) he
  obtain ⟨hsplit, hne⟩ := List.mem_filter.1 hpart
  exact hdenotes.isPlain (by simpa using hne) (Text.not_mem_of_mem_splitAtEach hsplit)

theorem key_of_elements_eq_nil (h : p.elements = []) : p.key = "/" := by
  unfold key
  rw [h]
  rfl

theorem toList_key (h : p.elements ≠ []) :
    p.key.toList = (p.elements.map Element.body).flatMap fun body => '/' :: body := by
  unfold key writeElements
  split
  · contradiction
  · simp only [String.toList_join, List.flatMap_map, Element.toList_written]

/-- A key is cut at its slashes into what its elements are written as. -/
theorem IsRead.bodies_of_key (h : p.IsRead) :
    (p.key.toList.splitOn '/').filter (· ≠ []) = p.elements.map Element.body := by
  by_cases hnil : p.elements = []
  · rw [key_of_elements_eq_nil hnil, hnil]
    decide
  · have hslash : ∀ body ∈ p.elements.map Element.body, '/' ∉ body :=
      List.forall_mem_map.2 fun e he => (h.isPlain e he).unslashed
    have hne : ∀ body ∈ p.elements.map Element.body, decide (body ≠ []) = true :=
      List.forall_mem_map.2 fun e he => by simpa using (h.isPlain e he).nonempty
    rw [toList_key hnil, Text.splitOn_flatMap hslash, List.filter_cons_of_neg (by simp),
      List.filter_eq_self.2 hne]

theorem IsRead.mapM_bodies (h : p.IsRead) :
    (p.elements.map Element.body).mapM parseElement = .ok p.elements := by
  rw [mapM_eq_ok_iff, List.forall₂_map_left_iff, List.forall₂_same]
  exact fun e he => (h.isPlain e he).denoted.parseElement

/-- **Templates of one key are the same**, if they were read. -/
theorem eq_of_key_eq (hp : p.IsRead) (hq : q.IsRead) (h : p.key = q.key) : p = q := by
  have hbodies : p.elements.map Element.body = q.elements.map Element.body := by
    rw [← hp.bodies_of_key, h, hq.bodies_of_key]
  have hread := hp.mapM_bodies
  rw [hbodies, hq.mapM_bodies] at hread
  exact elements_inj.1 (Except.ok.inj hread).symm

/-! ## Relations of templates -/

variable {n : Nat} {x : String}

theorem agree_iff : p.agree q = true ↔ ∀ (n : Nat) (e f : Element), p.elements[n]? = some e →
    q.elements[n]? = some f → e.agrees f = true := by
  unfold agree
  rw [List.all_eq_true]
  constructor
  · intro h n e f he hf
    exact h (e, f) (List.mem_of_getElem? (List.getElem?_zip_eq_some.2 ⟨he, hf⟩))
  · intro h pair hpair
    obtain ⟨n, hn⟩ := List.mem_iff_getElem?.1 hpair
    obtain ⟨he, hf⟩ := List.getElem?_zip_eq_some.1 hn
    exact h n pair.1 pair.2 he hf

theorem isSameOrAncestorOf_iff :
    p.isSameOrAncestorOf q = true ↔ p.levels ≤ q.levels ∧ p.agree q = true := by
  unfold isSameOrAncestorOf isEquivalent isAncestorOf
  cases p.agree q with
  | false => simp
  | true =>
    simp only [Bool.and_true, Bool.or_eq_true, decide_eq_true_eq, and_true]
    omega

theorem exists_element (h : p.isSameOrAncestorOf q = true) {e : Element}
    (he : p.elements[n]? = some e) : ∃ f, q.elements[n]? = some f ∧ e.agrees f = true := by
  obtain ⟨hlevels, hagree⟩ := isSameOrAncestorOf_iff.1 h
  obtain ⟨hn, -⟩ := List.getElem?_eq_some_iff.1 he
  obtain ⟨f, hf⟩ : ∃ f, q.elements[n]? = some f :=
    ⟨_, List.getElem?_eq_getElem (Nat.lt_of_lt_of_le hn hlevels)⟩
  exact ⟨f, hf, agree_iff.1 hagree n e f he hf⟩

/-! ### Forms -/

/-- What the elements of a path stand for. -/
def forms (p : PathTemplate) : List (Option String) := p.elements.map Element.form

@[simp]
theorem length_forms : p.forms.length = p.levels := by
  simp [forms, levels]

/-- The forms of a path or an ancestor are those that the path starts with. -/
theorem isSameOrAncestorOf_iff_forms : p.isSameOrAncestorOf q = true ↔ p.forms <+: q.forms := by
  constructor
  · intro h
    apply List.prefix_iff_getElem?.2
    intro n hn
    have hn : n < p.elements.length := by simpa [levels] using hn
    obtain ⟨f, hf, hagrees⟩ := exists_element h (List.getElem?_eq_getElem hn)
    simp [forms, hf, Element.agrees_iff.1 hagrees]
  · intro h
    apply isSameOrAncestorOf_iff.2
    refine ⟨by simpa using h.length_le, agree_iff.2 ?_⟩
    intro n e f he hf
    obtain ⟨rest, hrest⟩ := h
    have hn : n < p.forms.length := by simpa [levels] using (List.getElem?_eq_some_iff.1 he).1
    have hsame : q.forms[n]? = p.forms[n]? := by rw [← hrest, List.getElem?_append_left hn]
    apply Element.agrees_iff.2
    simpa [forms, he, hf] using hsame.symm

theorem levels_eq_of_forms_eq (h : p.forms = q.forms) : p.levels = q.levels := by
  rw [← length_forms, h, length_forms]

/-- **Equivalent paths have the same forms.** -/
theorem isEquivalent_iff_forms : p.isEquivalent q = true ↔ p.forms = q.forms := by
  constructor
  · intro h
    have hprefix := isSameOrAncestorOf_iff_forms.1 (Bool.or_eq_true_iff.2 (.inl h))
    have hlevels : p.levels = q.levels := decide_eq_true_iff.1 (Bool.and_eq_true_iff.1 h).1
    exact hprefix.eq_of_length (by simpa using hlevels)
  · intro h
    have hsame : p.isSameOrAncestorOf q = true :=
      isSameOrAncestorOf_iff_forms.2 (h ▸ List.prefix_rfl)
    simp [isEquivalent, levels_eq_of_forms_eq h, (isSameOrAncestorOf_iff.1 hsame).2]

/-- **The forms of an ancestor are the first ones of a longer path.** -/
theorem isAncestorOf_iff_forms :
    p.isAncestorOf q = true ↔ p.levels < q.levels ∧ p.forms <+: q.forms := by
  rw [← isSameOrAncestorOf_iff_forms, isSameOrAncestorOf_iff]
  unfold isAncestorOf
  constructor
  · intro h
    obtain ⟨hlevels, hagree⟩ := Bool.and_eq_true_iff.1 h
    have hlevels : p.levels < q.levels := decide_eq_true_iff.1 hlevels
    exact ⟨hlevels, Nat.le_of_lt hlevels, hagree⟩
  · rintro ⟨hlevels, -, hagree⟩
    simp [hlevels, hagree]

theorem agrees_symm {a b : Element} (h : a.agrees b = true) : b.agrees a = true :=
  Element.agrees_iff.2 (Element.agrees_iff.1 h).symm

theorem isEquivalent_refl (p : PathTemplate) : p.isEquivalent p = true := isEquivalent_iff_forms.2 rfl

theorem not_isEquivalent_of_isAncestorOf (h : p.isAncestorOf q = true) :
    ¬ p.isEquivalent q = true := by
  obtain ⟨hshorter, -⟩ := Bool.and_eq_true_iff.1 h
  intro hsame
  obtain ⟨hsame, -⟩ := Bool.and_eq_true_iff.1 hsame
  exact Nat.ne_of_lt (decide_eq_true_iff.1 hshorter) (decide_eq_true_iff.1 hsame)

theorem isAncestorOf_trans {o : PathTemplate} (hop : o.isAncestorOf p = true)
    (hpq : p.isAncestorOf q = true) : o.isAncestorOf q = true := by
  rw [isAncestorOf_iff_forms] at hop hpq ⊢
  exact ⟨Nat.lt_trans hop.1 hpq.1, hop.2.trans hpq.2⟩

/-! ### Prefixes -/

/-- The elements of `p` agree one by one with those that `q` starts with, and `q` has more. -/
def IsStrictPrefix (p q : PathTemplate) : Prop :=
  ∃ front rest, q.elements = front ++ rest ∧ rest ≠ [] ∧
    List.Forall₂ (fun a b : Element => a.agrees b = true) p.elements front

/-- **Ancestors are strict prefixes.** -/
theorem isAncestorOf_iff : p.isAncestorOf q = true ↔ p.IsStrictPrefix q := by
  unfold isAncestorOf agree levels
  rw [Bool.and_eq_true, decide_eq_true_eq, List.all_eq_true]
  constructor
  · rintro ⟨hshorter, hagree⟩
    refine ⟨q.elements.take p.elements.length, q.elements.drop p.elements.length,
      (List.take_append_drop _ _).symm, by simpa using hshorter, ?_⟩
    rw [List.zip_eq_zip_take_min, Nat.min_eq_left (Nat.le_of_lt hshorter), List.take_length]
      at hagree
    exact List.forall₂_iff_zip.2 ⟨by simp [Nat.le_of_lt hshorter], fun h => hagree _ h⟩
  · rintro ⟨front, rest, helements, hrest, hagree⟩
    obtain ⟨hlength, hzip⟩ := List.forall₂_iff_zip.1 hagree
    have hrest : 0 < rest.length := List.length_pos_iff.2 hrest
    constructor
    · rw [helements, List.length_append]
      omega
    · intro pair hpair
      have hsame : (p.elements ++ []).zip (front ++ rest) = p.elements.zip front ++ [].zip rest :=
        List.zip_append hlength
      rw [List.append_nil, ← helements, List.zip_nil_left, List.append_nil] at hsame
      exact hzip (hsame ▸ hpair)

theorem IsStrictPrefix.levels_lt (h : p.IsStrictPrefix q) : p.levels < q.levels :=
  decide_eq_true_iff.1 (Bool.and_eq_true_iff.1 (isAncestorOf_iff.2 h)).1

theorem IsStrictPrefix.trans {o : PathTemplate} (hop : o.IsStrictPrefix p)
    (hpq : p.IsStrictPrefix q) : o.IsStrictPrefix q := by
  rw [← isAncestorOf_iff] at hop hpq ⊢
  exact isAncestorOf_trans hop hpq

instance : Trans IsStrictPrefix IsStrictPrefix IsStrictPrefix := ⟨IsStrictPrefix.trans⟩

/-! ### The same path or an ancestor -/

/-- A path that is above another one or the same is a strict prefix of it, if it is no other spelling. -/
theorem same_or_isStrictPrefix_iff : p = q ∨ p.IsStrictPrefix q ↔
    p.isSameOrAncestorOf q = true ∧ (p.isEquivalent q = true → p = q) := by
  rw [← isAncestorOf_iff, isSameOrAncestorOf, Bool.or_eq_true]
  constructor
  · rintro (rfl | habove)
    · exact ⟨.inl p.isEquivalent_refl, fun _ => rfl⟩
    · exact ⟨.inr habove, fun h => absurd h (not_isEquivalent_of_isAncestorOf habove)⟩
  · rintro ⟨hsame | habove, hspelled⟩
    · exact .inl (hspelled hsame)
    · exact .inr habove

theorem isSameOrAncestorOf_refl (p : PathTemplate) : p.isSameOrAncestorOf p = true :=
  Bool.or_eq_true_iff.2 (.inl p.isEquivalent_refl)

theorem isSameOrAncestorOf_trans {o : PathTemplate} (hop : o.isSameOrAncestorOf p = true)
    (hpq : p.isSameOrAncestorOf q = true) : o.isSameOrAncestorOf q = true := by
  rw [isSameOrAncestorOf_iff_forms] at hop hpq ⊢
  exact hop.trans hpq

/-- A variable stands for a part of the path, whatever its name. -/
theorem exists_variable (h : p.isSameOrAncestorOf q = true) (hx : p.elements[n]? = some (.var x)) :
    ∃ y, q.elements[n]? = some (.var y) := by
  obtain ⟨f, hf, hagrees⟩ := exists_element h hx
  cases f with
  | literal s => contradiction
  | var y => exact ⟨y, hf⟩

end PathTemplate

end RestScenario
