/-!
# Splitting at a separator

`splitAtEach sep` cuts a text at every occurrence of a separator. There is one piece more than
there are separators, and pieces may be empty.
-/

namespace RestScenario.Text

/-- The pieces between the separators. -/
def splitAtEach (sep : Char) : List Char → List (List Char)
  | [] => [[]]
  | c :: rest =>
    if c = sep then [] :: splitAtEach sep rest
    else
      match splitAtEach sep rest with
      | [] => [[c]]
      | piece :: pieces => (c :: piece) :: pieces

theorem splitAtEach_ne_nil (sep : Char) (cs : List Char) : splitAtEach sep cs ≠ [] := by
  cases cs with
  | nil => simp [splitAtEach]
  | cons c rest =>
    rw [splitAtEach]
    split
    · simp
    · split <;> simp

/-- No piece holds the separator. -/
theorem not_mem_of_mem_splitAtEach {sep : Char} {cs piece : List Char}
    (h : piece ∈ splitAtEach sep cs) : sep ∉ piece := by
  induction cs generalizing piece with
  | nil => simp_all [splitAtEach]
  | cons c rest ih =>
    rw [splitAtEach] at h
    by_cases hc : c = sep
    · rw [if_pos hc] at h
      rcases List.mem_cons.1 h with rfl | h
      · simp
      · exact ih h
    · rw [if_neg hc] at h
      split at h
      · rename_i hs
        exact absurd hs (splitAtEach_ne_nil sep rest)
      · rename_i hs
        rcases List.mem_cons.1 h with rfl | h
        · simpa [Ne.symm hc] using ih (hs ▸ List.mem_cons_self)
        · exact ih (hs ▸ List.mem_cons_of_mem _ h)

end RestScenario.Text
