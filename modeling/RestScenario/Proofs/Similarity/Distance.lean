import Mathlib.Order.Bounds.Basic
import Mathlib.Order.MinMax
import RestScenario.Similarity

/-!
# Edit distance

A text is turned into another one by insertions, deletions and replacements of characters
(`Edits`). The distance of two texts is the least number of them (`IsDistance`).

The distance is computed in a table whose rows belong to the beginnings of one text and whose columns
belong to those of the other. So each row is described by the characters that were passed, the last one
in front (`IsRow`), and edits may be read from either end (`Edits.reverse`). An entry needs only its
neighbours to the left and above (`isDistance_cons_cons`), and a row yields the next one from left to
right (`isRow_extendRow`).

Main statement: `isDistance_editDistance`.
-/

namespace RestScenario.Similarity

/-- A text is turned into another one with a number of insertions, deletions and replacements; other
characters are kept. -/
inductive Edits : List Char → List Char → Nat → Prop
  | nil : Edits [] [] 0
  | keep (c : Char) {xs ys : List Char} {n : Nat} (h : Edits xs ys n) : Edits (c :: xs) (c :: ys) n
  | insert (d : Char) {xs ys : List Char} {n : Nat} (h : Edits xs ys n) : Edits xs (d :: ys) (n + 1)
  | delete (c : Char) {xs ys : List Char} {n : Nat} (h : Edits xs ys n) : Edits (c :: xs) ys (n + 1)
  | replace (c d : Char) {xs ys : List Char} {n : Nat} (h : Edits xs ys n) :
      Edits (c :: xs) (d :: ys) (n + 1)

/-- The least number of edits that turn one text into another. -/
def IsDistance (xs ys : List Char) (n : Nat) : Prop := IsLeast {m | Edits xs ys m} n

/-- A row of the table of distances from a text: those to the characters that were passed, then to one
more of the others each time. -/
inductive IsRow (xs : List Char) : List Char → List Char → List Nat → Prop
  | last {passed : List Char} {n : Nat} (h : IsDistance xs passed n) : IsRow xs passed [] [n]
  | cons {passed rest : List Char} {d : Char} {n : Nat} {row : List Nat}
      (h : IsDistance xs passed n) (hrest : IsRow xs (d :: passed) rest row) :
      IsRow xs passed (d :: rest) (n :: row)

variable {c d : Char} {xs ys xs' ys' passed rest source target : List Char}
  {m n left up diagonal : Nat} {row ups : List Nat}

/-! ## Edits -/

theorem Edits.append (h : Edits xs ys m) (h' : Edits xs' ys' n) :
    Edits (xs ++ xs') (ys ++ ys') (m + n) := by
  induction h with
  | nil => simpa using h'
  | keep c _ ih => exact .keep c ih
  | insert d _ ih => rw [Nat.add_right_comm]; exact .insert d ih
  | delete c _ ih => rw [Nat.add_right_comm]; exact .delete c ih
  | replace c d _ ih => rw [Nat.add_right_comm]; exact .replace c d ih

theorem Edits.reverse (h : Edits xs ys n) : Edits xs.reverse ys.reverse n := by
  induction h with
  | nil => exact .nil
  | keep c _ ih => simpa using ih.append (.keep c .nil)
  | insert d _ ih => simpa using ih.append (.insert d .nil)
  | delete c _ ih => simpa using ih.append (.delete c .nil)
  | replace c d _ ih => simpa using ih.append (.replace c d .nil)

theorem isDistance_of_reverse (h : IsDistance xs.reverse ys.reverse n) : IsDistance xs ys n := by
  constructor
  · simpa using Edits.reverse h.1
  · exact fun m hm => h.2 (Edits.reverse hm)

/-! ## Entries of the table -/

theorem isDistance_nil_left : IsDistance [] ys ys.length := by
  constructor
  · induction ys with
    | nil => exact .nil
    | cons d ys ih => exact .insert d ih
  · intro m hm
    induction ys generalizing m with
    | nil => exact Nat.zero_le m
    | cons d ys ih =>
      cases hm with
      | insert _ h => exact Nat.succ_le_succ (ih h)

theorem isDistance_cons_nil (h : IsDistance xs [] n) : IsDistance (c :: xs) [] (n + 1) := by
  constructor
  · exact .delete c h.1
  · intro m hm
    cases hm with
    | delete _ hm => exact Nat.succ_le_succ (h.2 hm)

/-- The first character is inserted or deleted, or the first ones are turned into each other. -/
theorem isDistance_cons_cons (hleft : IsDistance (c :: xs) ys left)
    (hup : IsDistance xs (d :: ys) up) (hdiagonal : IsDistance xs ys diagonal) :
    IsDistance (c :: xs) (d :: ys)
      (min (min (left + 1) (up + 1)) (if c = d then diagonal else diagonal + 1)) := by
  have hboth : Edits (c :: xs) (d :: ys) (if c = d then diagonal else diagonal + 1) := by
    by_cases heq : c = d
    · subst heq
      simpa using Edits.keep c hdiagonal.1
    · simpa [heq] using Edits.replace c d hdiagonal.1
  constructor
  · rcases min_choice (min (left + 1) (up + 1)) (if c = d then diagonal else diagonal + 1) with h | h
    · rcases min_choice (left + 1) (up + 1) with h' | h' <;> rw [h, h']
      · exact .insert d hleft.1
      · exact .delete c hup.1
    · rw [h]
      exact hboth
  · intro m hm
    cases hm with
    | keep _ hm =>
      have := hdiagonal.2 hm
      simp [this]
    | insert _ hm =>
      have := hleft.2 hm
      simp [this]
    | delete _ hm =>
      have := hup.2 hm
      simp [this]
    | replace _ _ hm =>
      have hle : (if c = d then diagonal else diagonal + 1) ≤ diagonal + 1 := by split <;> omega
      exact (min_le_right _ _).trans (hle.trans (Nat.succ_le_succ (hdiagonal.2 hm)))

/-! ## Rows of the table -/

theorem IsRow.exists_cons (h : IsRow xs passed rest row) :
    ∃ n ups, row = n :: ups ∧ IsDistance xs passed n := by
  cases h with
  | last h => exact ⟨_, _, rfl, h⟩
  | cons h _ => exact ⟨_, _, rfl, h⟩

/-- The first row counts the characters to insert. -/
theorem isRow_nil : IsRow [] passed rest (List.range' passed.length (rest.length + 1)) := by
  induction rest generalizing passed with
  | nil => exact .last isDistance_nil_left
  | cons d rest ih => exact .cons isDistance_nil_left ih

theorem isRow_extendRow (h : IsRow xs passed rest (diagonal :: ups))
    (hleft : IsDistance (c :: xs) passed left) :
    IsRow (c :: xs) passed rest (left :: extendRow c left diagonal rest ups) := by
  induction rest generalizing passed diagonal left ups with
  | nil =>
    cases h with
    | last h => exact .last hleft
  | cons d rest ih =>
    cases h with
    | cons hdiagonal hrest =>
      obtain ⟨up, ups, rfl, hup⟩ := hrest.exists_cons
      exact .cons hleft (ih hrest (isDistance_cons_cons hleft hup hdiagonal))

theorem isRow_nextRow (h : IsRow xs [] target row) :
    IsRow (c :: xs) [] target (nextRow target row c) := by
  obtain ⟨first, ups, rfl, hfirst⟩ := h.exists_cons
  exact isRow_extendRow h (isDistance_cons_nil hfirst)

theorem isRow_foldl (source : List Char) (h : IsRow xs [] target row) :
    IsRow (source.reverse ++ xs) [] target (source.foldl (nextRow target) row) := by
  induction source generalizing xs row with
  | nil => exact h
  | cons c source ih => simpa using ih (isRow_nextRow h)

/-- The last entry of a row belongs to all characters. -/
theorem IsRow.exists_getLast? (h : IsRow xs passed rest row) :
    ∃ n, row.getLast? = some n ∧ IsDistance xs (rest.reverse ++ passed) n := by
  induction h with
  | last h => exact ⟨_, rfl, h⟩
  | cons _ hrest ih =>
    obtain ⟨n, hlast, hn⟩ := ih
    exact ⟨n, by simp [List.getLast?_cons, hlast], by simpa using hn⟩

/-- The computed distance is the least number of insertions, deletions and replacements that turn one
text into the other. -/
theorem isDistance_editDistance (source target : List Char) :
    IsDistance source target (editDistance source target) := by
  have hstart : IsRow [] [] target (List.range (target.length + 1)) := by
    rw [List.range_eq_range']
    exact isRow_nil
  obtain ⟨n, hlast, hn⟩ := (isRow_foldl source hstart).exists_getLast?
  have heq : editDistance source target = n := by simp [editDistance, hlast]
  rw [heq]
  exact isDistance_of_reverse (by simpa using hn)

end RestScenario.Similarity
