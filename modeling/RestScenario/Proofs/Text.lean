import Mathlib.Data.List.DropRight
import RestScenario.Text.Ascii
import RestScenario.Text.Blank
import RestScenario.Text.Split

/-!
# Trimming, letter case and splitting

A trimmed text has no blank at either end, so trimming it again changes nothing
(`Text.trimChars_trimChars`), and a text that starts with another character loses blanks at its end
alone (`Text.trimChars_cons`). No letter is a blank, so a text can be trimmed before or after its
letters are lowered (`Text.trimChars_lowerChars`).

Splitting at a separator is `List.splitOn` (`Text.splitAtEach_eq_splitOn`). It gives back the pieces
that were written one after another, each behind a separator (`Text.splitOn_flatMap`).
-/

namespace RestScenario.Text

variable {cs xs ys : List Char} {c sep : Char}

/-! ## Trimming -/

theorem trimChars_eq (cs : List Char) : trimChars cs = (cs.dropWhile isBlank).rdropWhile isBlank := rfl

theorem trimChars_subset (cs : List Char) : trimChars cs ⊆ cs := by
  rw [trimChars_eq]
  exact fun _ hc => (List.dropWhile_sublist _).subset ((List.rdropWhile_prefix ..).subset hc)

/-- Blanks at the end are dropped only up to a character that is none. -/
theorem rdropWhile_append_cons (h : isBlank c = false) :
    (xs ++ c :: ys).rdropWhile isBlank = xs ++ c :: ys.rdropWhile isBlank := by
  induction ys using List.reverseRecOn with
  | nil => rw [List.rdropWhile_concat_neg _ _ _ (by simp [h]), List.rdropWhile_nil]
  | append_singleton ys y ih =>
    rw [← List.cons_append, ← List.append_assoc]
    by_cases hy : isBlank y = true
    · rw [List.rdropWhile_concat_pos _ _ _ hy, List.rdropWhile_concat_pos _ _ _ hy, ih]
    · rw [List.rdropWhile_concat_neg _ _ _ hy, List.rdropWhile_concat_neg _ _ _ hy,
        List.append_assoc, List.cons_append]

theorem rdropWhile_cons (h : isBlank c = false) :
    (c :: cs).rdropWhile isBlank = c :: cs.rdropWhile isBlank := by
  rw [← List.nil_append (c :: cs), rdropWhile_append_cons h, List.nil_append]

theorem trimChars_cons (h : isBlank c = false) : trimChars (c :: cs) = c :: cs.rdropWhile isBlank := by
  rw [trimChars_eq, List.dropWhile_cons_of_neg (by simp [h]), rdropWhile_cons h]

/-- Trimming a text again changes nothing. -/
theorem trimChars_trimChars (cs : List Char) : trimChars (trimChars cs) = trimChars cs := by
  rw [trimChars_eq cs]
  cases hdrop : cs.dropWhile isBlank with
  | nil => rfl
  | cons c rest =>
    have hne : cs.dropWhile isBlank ≠ [] := by simp [hdrop]
    have hc : isBlank c = false := by simpa [hdrop] using List.head_dropWhile_not isBlank hne
    rw [rdropWhile_cons hc, trimChars_cons hc, List.rdropWhile_idempotent]

/-! ## Letter case -/

theorem isUpper_iff : c.isUpper = true ↔ 65 ≤ c.toNat ∧ c.toNat ≤ 90 := by
  show decide (c.val ≥ 'A'.val ∧ c.val ≤ 'Z'.val) = true ↔ _
  simp [UInt32.le_iff_toNat_le]

theorem isLower_iff : c.isLower = true ↔ 97 ≤ c.toNat ∧ c.toNat ≤ 122 := by
  show (c.val ≥ 'a'.val && c.val ≤ 'z'.val) = true ↔ _
  simp [UInt32.le_iff_toNat_le]

theorem isDigit_iff : c.isDigit = true ↔ 48 ≤ c.toNat ∧ c.toNat ≤ 57 := by
  show (c.val ≥ '0'.val && c.val ≤ '9'.val) = true ↔ _
  simp [UInt32.le_iff_toNat_le]

/-- The letters `A` to `Z` move up by 32. -/
theorem toNat_toLower (c : Char) :
    c.toLower.toNat = if 65 ≤ c.toNat ∧ c.toNat ≤ 90 then c.toNat + 32 else c.toNat := by
  have hupper : (c.val ≥ 'A'.val ∧ c.val ≤ 'Z'.val) ↔ 65 ≤ c.toNat ∧ c.toNat ≤ 90 :=
    decide_eq_true_iff.symm.trans isUpper_iff
  unfold Char.toLower
  by_cases h : 65 ≤ c.toNat ∧ c.toNat ≤ 90
  · have hsmall : c.toNat + 32 < 2 ^ 32 := by omega
    rw [dif_pos (hupper.2 h), if_pos h]
    show (c.val + 32).toNat = _
    rw [UInt32.toNat_add]
    exact Nat.mod_eq_of_lt hsmall
  · rw [dif_neg (mt hupper.1 h), if_neg h]

theorem toLower_toLower (c : Char) : c.toLower.toLower = c.toLower := by
  apply Char.ext
  apply UInt32.toNat_inj.1
  show c.toLower.toLower.toNat = c.toLower.toNat
  rw [toNat_toLower, if_neg]
  rw [toNat_toLower]
  split <;> omega

theorem isBlank_toLower (c : Char) : isBlank c.toLower = isBlank c := by
  have hletter : ∀ n, 65 ≤ n → n ≤ 122 →
      (blankRanges.any fun r => r.1 ≤ n && n ≤ r.2) = false := by
    intro n hlow hhigh
    simp [blankRanges]
    omega
  unfold isBlank
  rw [toNat_toLower]
  by_cases h : 65 ≤ c.toNat ∧ c.toNat ≤ 90
  · rw [if_pos h, hletter _ (by omega) (by omega), hletter _ h.1 (by omega)]
  · rw [if_neg h]

theorem lowerChars_lowerChars (cs : List Char) : lowerChars (lowerChars cs) = lowerChars cs := by
  have htwice : Char.toLower ∘ Char.toLower = Char.toLower := funext toLower_toLower
  rw [lowerChars, lowerChars, List.map_map, htwice]

theorem trimChars_lowerChars (cs : List Char) :
    trimChars (lowerChars cs) = lowerChars (trimChars cs) := by
  have hblank : isBlank ∘ Char.toLower = isBlank := funext isBlank_toLower
  unfold trimChars lowerChars
  simp only [List.dropWhile_map, ← List.map_reverse, hblank]

/-! ## Splitting -/

theorem splitAtEach_eq_splitOn (sep : Char) (cs : List Char) :
    splitAtEach sep cs = cs.splitOn sep := by
  induction cs with
  | nil => rfl
  | cons c rest ih =>
    rw [splitAtEach, List.splitOn_cons_eq_if_modifyHead, ← ih]
    by_cases hc : c = sep
    · simp [hc]
    · rw [if_neg hc, if_neg (by simpa using hc)]
      cases hpieces : splitAtEach sep rest with
      | nil => exact absurd hpieces (splitAtEach_ne_nil sep rest)
      | cons piece pieces => rfl

theorem splitOn_flatMap {pieces : List (List Char)} (h : ∀ piece ∈ pieces, sep ∉ piece) :
    (pieces.flatMap fun piece => sep :: piece).splitOn sep = [] :: pieces := by
  have hjoin : ∀ first : List Char, first ++ (pieces.flatMap fun piece => sep :: piece) =
      [sep].intercalate (first :: pieces) := by
    clear h
    induction pieces with
    | nil => simp
    | cons piece rest ih =>
      intro first
      rw [List.flatMap_cons, List.cons_append, ih piece, List.intercalate_cons_cons]
      simp
  rw [← List.nil_append (pieces.flatMap _), hjoin []]
  exact List.splitOn_intercalate sep (by simpa using h) (by simp)

end RestScenario.Text
