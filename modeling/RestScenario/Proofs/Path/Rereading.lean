import RestScenario.Proofs.Path

/-!
# Keys that are read again

The key of a template is cut at the slashes that its elements are written with, so it is read into
these elements, up to the last one. Before a slash a literal keeps the blanks at its end, but no slash
is written behind the last element of a key. So a last literal loses the blanks at its end when the key
is read, and it is lost itself where it has nothing else (`PathTemplate.IsRead.parse_key`).

A key that does not end in a blank is read into the template that it was written from, and no other
key is (`key_is_read_back`). A text can spell a template with a key of the other kind, by a blank
before its last slash (`blank_before_last_slash_is_lost`).
-/

namespace RestScenario

/-! ## The last element -/

/-- What is left of an element when the blanks behind it are dropped. -/
def Element.withoutBlanks? : Element → Option Element
  | literal s =>
    let kept := s.toList.rdropWhile Text.isBlank
    if kept = [] then none else some (literal (String.ofList kept))
  | var v => some (var v)

namespace PathTemplate

variable {part : List Char} {e : Element}

theorem Denotes.unbraced {text : String} (h : Denotes part (.literal text)) :
    '\x7b' ∉ part ∧ '\x7d' ∉ part := by
  cases h with
  | literal hopen hclose => exact ⟨hopen, hclose⟩

theorem rdropWhile_body_var (v : String) :
    (Element.var v).body.rdropWhile Text.isBlank = (Element.var v).body := by
  show ('\x7b' :: (v.toList ++ ['\x7d'])).rdropWhile Text.isBlank = _
  rw [← List.cons_append, List.rdropWhile_concat_neg _ _ _ (by decide)]
  rfl

/-- What is left of the part of an element stands for what is left of the element. -/
theorem Denotes.withoutBlanks (h : Denotes e.body e) :
    List.Forall₂ Denotes ([e.body.rdropWhile Text.isBlank].filter (· ≠ []))
      e.withoutBlanks?.toList := by
  cases e with
  | literal s =>
    obtain ⟨hopen, hclose⟩ := h.unbraced
    have hsub : s.toList.rdropWhile Text.isBlank ⊆ s.toList := (List.rdropWhile_prefix ..).subset
    rw [Element.body, Element.withoutBlanks?]
    split
    · rename_i hnil
      rw [hnil]
      exact .nil
    · rename_i hkept
      rw [List.filter_cons_of_pos (by simpa using hkept)]
      exact .cons (.literal (fun hmem => hopen (hsub hmem)) fun hmem => hclose (hsub hmem)) .nil
  | var v =>
    rw [rdropWhile_body_var]
    exact .cons h .nil

/-- Nothing is left out of an element exactly when it is not written with a blank at its end. -/
theorem withoutBlanks?_eq_some_iff (h : e.body ≠ []) :
    e.withoutBlanks? = some e ↔ e.body.rdropWhile Text.isBlank = e.body := by
  cases e with
  | literal s =>
    rw [Element.body] at h ⊢
    rw [Element.withoutBlanks?]
    constructor
    · intro hsome
      obtain ⟨-, hsame⟩ := Option.ite_none_left_eq_some.1 hsome
      have htext := congrArg String.toList (Element.literal.inj (Option.some.inj hsame))
      rwa [String.toList_ofList] at htext
    · intro hsame
      rw [hsame, if_neg h, String.ofList_toList]
  | var v => exact iff_of_true rfl (rdropWhile_body_var v)

/-! ## Keys -/

variable {p : PathTemplate} {front : List Element}

/-- The template without the blanks behind its last element, and without this element if it is
all blanks. -/
def withoutEndBlanks (p : PathTemplate) : PathTemplate :=
  ⟨p.elements.dropLast ++ (p.elements.getLast?.bind Element.withoutBlanks?).toList⟩

theorem withoutEndBlanks_of_nil (h : p.elements = []) : p.withoutEndBlanks = p := by
  rw [← elements_inj, withoutEndBlanks, h]
  rfl

theorem elements_withoutEndBlanks (h : p.elements = front ++ [e]) :
    p.withoutEndBlanks.elements = front ++ e.withoutBlanks?.toList := by
  rw [withoutEndBlanks, h, List.dropLast_concat, List.getLast?_concat, Option.bind_some]

/-- A key loses the blanks at the end of what its last element is written with. -/
theorem trimChars_key (h : p.elements = front ++ [e]) : Text.trimChars p.key.toList =
    (front.map Element.body ++ [e.body.rdropWhile Text.isBlank]).flatMap fun body => '/' :: body := by
  have hslash : Text.isBlank '/' = false := by decide
  have hkey : p.key.toList =
      ((front.map Element.body).flatMap fun body => '/' :: body) ++ '/' :: e.body := by
    rw [toList_key (by simp [h]), h, List.map_append, List.flatMap_append]
    simp
  have hhead : p.key.toList.dropWhile Text.isBlank = p.key.toList := by
    rw [hkey]
    cases front <;> simp [hslash]
  rw [Text.trimChars_eq, hhead, hkey, Text.rdropWhile_append_cons hslash, List.flatMap_append]
  simp

theorem IsRead.partsOf_key (hp : p.IsRead) (h : p.elements = front ++ [e]) :
    partsOf p.key.toList =
      front.map Element.body ++ [e.body.rdropWhile Text.isBlank].filter (· ≠ []) := by
  have hplain := hp.isPlain
  rw [h, List.forall_mem_append, List.forall_mem_singleton] at hplain
  obtain ⟨hfront, hlast⟩ := hplain
  have hslash : ∀ body ∈ front.map Element.body ++ [e.body.rdropWhile Text.isBlank], '/' ∉ body := by
    rw [List.forall_mem_append, List.forall_mem_map, List.forall_mem_singleton]
    exact ⟨fun e he => (hfront e he).unslashed,
      fun hmem => hlast.unslashed ((List.rdropWhile_prefix ..).subset hmem)⟩
  have hbodies : (front.map Element.body).filter (· ≠ []) = front.map Element.body := by
    refine List.filter_eq_self.2 ?_
    rw [List.forall_mem_map]
    exact fun e he => by simpa using (hfront e he).nonempty
  rw [partsOf_eq, trimChars_key h, Text.splitOn_flatMap hslash, List.filter_cons_of_neg (by simp),
    List.filter_append, hbodies]

/-- **The key of a template is read into its elements**, without the blanks behind the last one. -/
theorem IsRead.parse_key (h : p.IsRead) : parse p.key = .ok p.withoutEndBlanks := by
  rcases List.eq_nil_or_concat p.elements with hnil | ⟨front, e, hp⟩
  · rw [key_of_elements_eq_nil hnil, withoutEndBlanks_of_nil hnil, parse_eq_ok_iff, hnil]
    exact .nil
  · rw [List.concat_eq_append] at hp
    have hplain := h.isPlain
    rw [hp, List.forall_mem_append, List.forall_mem_singleton] at hplain
    obtain ⟨hfront, hlast⟩ := hplain
    rw [parse_eq_ok_iff, h.partsOf_key hp, elements_withoutEndBlanks hp]
    refine List.rel_append ?_ hlast.denoted.withoutBlanks
    rw [List.forall₂_map_left_iff, List.forall₂_same]
    exact fun e he => (hfront e he).denoted

/-- Nothing is dropped exactly when the key does not end in a blank. -/
theorem IsRead.withoutEndBlanks_eq_iff (h : p.IsRead) :
    p.withoutEndBlanks = p ↔ Text.trim p.key = p.key := by
  rcases List.eq_nil_or_concat p.elements with hnil | ⟨front, e, hp⟩
  · rw [key_of_elements_eq_nil hnil]
    exact iff_of_true (withoutEndBlanks_of_nil hnil) (by decide)
  · rw [List.concat_eq_append] at hp
    have hbody : e.body ≠ [] := (h.isPlain e (by simp [hp])).nonempty
    have hkey : p.key.toList =
        (front.map Element.body ++ [e.body]).flatMap fun body => '/' :: body := by
      rw [toList_key (by simp [hp]), hp, List.map_append, List.map_singleton]
    calc p.withoutEndBlanks = p
        ↔ front ++ e.withoutBlanks?.toList = front ++ [e] := by
          rw [← elements_inj, elements_withoutEndBlanks hp, hp]
      _ ↔ e.withoutBlanks? = some e := by
          rw [List.append_cancel_left_eq]
          cases e.withoutBlanks? <;> simp
      _ ↔ e.body.rdropWhile Text.isBlank = e.body := withoutBlanks?_eq_some_iff hbody
      _ ↔ Text.trimChars p.key.toList = p.key.toList := by
          rw [trimChars_key hp, hkey]
          simp
      _ ↔ Text.trim p.key = p.key := by
          rw [Text.trim, ← String.toList_inj, String.toList_ofList]

end PathTemplate

open PathTemplate in
/-- **A key is read back unless it ends in a blank.** The key of a template that was read is always
read, into the same template without the blanks behind its last element. It is read into the same
template, and the template read has the same key, exactly when no blank stands at the end of the key. -/
theorem key_is_read_back {s : String} {p : PathTemplate} (h : parse s = .ok p) :
    parse p.key = .ok p.withoutEndBlanks ∧ (parse p.key = .ok p ↔ Text.trim p.key = p.key) ∧
      (p.withoutEndBlanks.key = p.key ↔ Text.trim p.key = p.key) := by
  have hp : p.IsRead := ⟨s, h⟩
  have hq : p.withoutEndBlanks.IsRead := ⟨p.key, hp.parse_key⟩
  rw [← hp.withoutEndBlanks_eq_iff, hp.parse_key]
  refine ⟨rfl, ?_, ?_⟩
  · exact ⟨Except.ok.inj, congrArg Except.ok⟩
  · exact ⟨eq_of_key_eq hq hp, congrArg key⟩

open PathTemplate in
/-- Blanks inside a key stay, and those around the name of a variable are not part of it. -/
theorem key_of_user_is_read_back : ∃ p, parse "\t/users of /\x7b id \x7dx/" = .ok p ∧
    p.key = "/users of /\x7bid\x7d" ∧ Text.trim p.key = p.key ∧ parse p.key = .ok p := by
  have h : parse "\t/users of /\x7b id \x7dx/" = .ok ⟨[.literal "users of ", .var "id"]⟩ := by
    decide +kernel
  have htrim : Text.trim (key ⟨[.literal "users of ", .var "id"]⟩) =
      key ⟨[.literal "users of ", .var "id"]⟩ := by
    decide +kernel
  exact ⟨_, h, by decide +kernel, htrim, (key_is_read_back h).2.1.2 htrim⟩

open PathTemplate in
/-- A blank before the last slash of a text is part of the key, and is lost when the key is read. -/
theorem blank_before_last_slash_is_lost :
    parse "/a /" = .ok ⟨[.literal "a "]⟩ ∧ key ⟨[.literal "a "]⟩ = "/a " ∧
      parse (key ⟨[.literal "a "]⟩) = .ok ⟨[.literal "a"]⟩ ∧
      (⟨[.literal "a "]⟩ : PathTemplate) ≠ ⟨[.literal "a"]⟩ := by
  decide +kernel

end RestScenario
