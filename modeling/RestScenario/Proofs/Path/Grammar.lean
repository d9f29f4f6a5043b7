import RestScenario.Path
import RestScenario.Proofs.Computation
import RestScenario.Proofs.Lists
import RestScenario.Proofs.Text

/-!
# The grammar of path templates

A text is cut at its slashes after the blanks at its ends are dropped, and each part that is not empty
stands for one element or for none:

- a part without braces stands for itself,
- a part with one pair of braces, the opening one first, stands for the variable named between them;
  what stands around the pair is passed over, and so are blanks at the ends of the name, which must
  not be all of it,
- any other part stands for nothing.

`PathTemplate.Denotes` says this without the way in which braces are counted and found. A text is read
exactly when all its parts stand for elements, and then into these (`templates_are_read_part_by_part`).
-/

namespace RestScenario

namespace PathTemplate

/-- The element that a part between slashes stands for. -/
inductive Denotes : List Char → Element → Prop
  /-- Without braces a part stands for itself. -/
  | literal {part : List Char} (opening : '\x7b' ∉ part) (closing : '\x7d' ∉ part) :
      Denotes part (.literal (String.ofList part))
  /-- One pair of braces holds the name of a variable. -/
  | var {before inside after : List Char} (opening : '\x7b' ∉ before ++ inside ++ after)
      (closing : '\x7d' ∉ before ++ inside ++ after) (named : Text.trimChars inside ≠ []) :
      Denotes (before ++ '\x7b' :: (inside ++ '\x7d' :: after))
        (.var (String.ofList (Text.trimChars inside)))

/-! ## Parts -/

variable {part before inside after rest : List Char} {e : Element}

theorem braced?_append_cons (h : '\x7b' ∉ before) : braced? (before ++ '\x7b' :: rest) =
    if '\x7d' ∈ rest then some (rest.takeWhile (· ≠ '\x7d')) else none := by
  unfold braced?
  rw [dropWhile_append_cons h, List.drop_one, List.tail_cons]

/-- What is found stands between the first opening brace and the first closing one behind it. -/
theorem braced?_eq_some_iff : braced? part = some inside ↔ ∃ before after,
    part = before ++ '\x7b' :: (inside ++ '\x7d' :: after) ∧ '\x7b' ∉ before ∧ '\x7d' ∉ inside := by
  constructor
  · intro h
    have hopen : '\x7b' ∈ part := by
      by_contra hopen
      have hnone : part.dropWhile (· ≠ '\x7b') = [] := List.dropWhile_eq_nil_iff.2 (by grind)
      unfold braced? at h
      rw [hnone] at h
      simp at h
    obtain ⟨before, rest, rfl, hbefore⟩ := List.eq_append_cons_of_mem hopen
    rw [braced?_append_cons hbefore] at h
    obtain ⟨hclose, hinside⟩ := Option.ite_none_right_eq_some.1 h
    obtain ⟨inside', after, rfl, hinside'⟩ := List.eq_append_cons_of_mem hclose
    obtain rfl : inside' = inside := by
      rw [← Option.some.inj hinside, takeWhile_append_cons hinside']
    exact ⟨before, after, rfl, hbefore, hinside'⟩
  · rintro ⟨before, after, rfl, hbefore, hinside⟩
    rw [braced?_append_cons hbefore, if_pos (by simp), takeWhile_append_cons hinside]

theorem count_opening : (before ++ '\x7b' :: (inside ++ '\x7d' :: after)).count '\x7b' =
    (before ++ inside ++ after).count '\x7b' + 1 := by
  simp
  omega

theorem count_closing : (before ++ '\x7b' :: (inside ++ '\x7d' :: after)).count '\x7d' =
    (before ++ inside ++ after).count '\x7d' + 1 := by
  simp
  omega

theorem Denotes.parseElement (h : Denotes part e) : parseElement part = .ok e := by
  unfold PathTemplate.parseElement
  cases h with
  | literal hopen hclose =>
    rw [List.count_eq_zero_of_not_mem hopen, List.count_eq_zero_of_not_mem hclose]
    simp
  | @var before inside after hopen hclose hnamed =>
    have hbefore : '\x7b' ∉ before := by grind
    have hinside : '\x7d' ∉ inside := by grind
    obtain ⟨c, cs, hname⟩ := List.exists_cons_of_ne_nil hnamed
    rw [count_opening, count_closing, List.count_eq_zero_of_not_mem hopen,
      List.count_eq_zero_of_not_mem hclose, if_neg (by simp), if_neg (by simp), if_neg (by simp),
      braced?_eq_some_iff.2 ⟨before, after, rfl, hbefore, hinside⟩, Option.map_some, hname]

theorem denotes_of_parseElement (h : parseElement part = .ok e) : Denotes part e := by
  unfold parseElement at h
  split at h
  · contradiction
  rename_i hbalanced
  rw [not_not] at hbalanced
  split at h
  · rename_i hopen
    obtain rfl := Except.ok.inj h
    exact .literal (List.count_eq_zero.1 hopen) (List.count_eq_zero.1 (hbalanced ▸ hopen))
  rename_i hbraces
  split at h
  · contradiction
  rename_i hsingle
  split at h
  · contradiction
  · contradiction
  · rename_i name hnamed hname
    obtain rfl := Except.ok.inj h
    obtain ⟨inside, hinside, rfl⟩ := Option.map_eq_some_iff.1 hname
    obtain ⟨before, after, rfl, -, -⟩ := braced?_eq_some_iff.1 hinside
    rw [count_closing] at hbalanced
    rw [count_opening] at hbalanced hbraces hsingle
    have hopen : (before ++ inside ++ after).count '\x7b' = 0 := by omega
    have hclose : (before ++ inside ++ after).count '\x7d' = 0 := by omega
    exact .var (List.count_eq_zero.1 hopen) (List.count_eq_zero.1 hclose) hnamed

/-- **A part is read exactly when it stands for an element**, and then as that element. -/
theorem parseElement_eq_ok_iff : parseElement part = .ok e ↔ Denotes part e :=
  ⟨denotes_of_parseElement, Denotes.parseElement⟩

/-! ## Templates -/

variable {p : PathTemplate} {s : String}

theorem partsOf_eq (cs : List Char) :
    partsOf cs = ((Text.trimChars cs).splitOn '/').filter (· ≠ []) := by
  unfold partsOf
  rw [Text.splitAtEach_eq_splitOn]

/-- A text is read into the elements that its parts stand for. -/
theorem parse_eq_ok_iff : parse s = .ok p ↔ List.Forall₂ Denotes (partsOf s.toList) p.elements := by
  have hforall : List.Forall₂ Denotes (partsOf s.toList) p.elements ↔
      (partsOf s.toList).mapM parseElement = .ok p.elements := by
    rw [mapM_eq_ok_iff]
    simp only [parseElement_eq_ok_iff]
  rw [hforall]
  unfold parse parseChars
  obtain ⟨elements⟩ := p
  cases (partsOf s.toList).mapM parseElement <;> simp [Except.map]

end PathTemplate

open PathTemplate in
/-- **Templates are read part by part.** A text is cut at its slashes after the blanks at its ends are
dropped. It is a template exactly when every part that is not empty stands for an element, and the
template has the elements of the parts one by one. -/
theorem templates_are_read_part_by_part (s : String) :
    ((∃ p, parse s = .ok p) ↔
      ∀ part ∈ ((Text.trimChars s.toList).splitOn '/').filter (· ≠ []), ∃ e, Denotes part e) ∧
    ∀ p, parse s = .ok p ↔
      List.Forall₂ Denotes (((Text.trimChars s.toList).splitOn '/').filter (· ≠ [])) p.elements := by
  rw [← partsOf_eq]
  refine ⟨?_, fun p => parse_eq_ok_iff⟩
  rw [← exists_forall₂_iff]
  constructor
  · rintro ⟨p, hp⟩
    exact ⟨p.elements, parse_eq_ok_iff.1 hp⟩
  · rintro ⟨elements, h⟩
    exact ⟨⟨elements⟩, parse_eq_ok_iff.2 h⟩

end RestScenario
