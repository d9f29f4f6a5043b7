import RestScenario.Random.Draw

/-!
# Numbers drawn below a bound

The high half of a draw of `bits` bits times the width of a range is in the range, also where the
low half is rejected until the last attempt, however many attempts a source grants. So a list that is not empty always has a member to
choose, and two numbers that are drawn together differ: where the second meets the first, the number
that the first cannot be takes its place.
-/

namespace RestScenario.Random

variable {α : Type} {xs : List α} {x : α} {n width zone : Nat} {source : Source}

theorem drawBelow_lt {draw : Draw Nat} {bits attempts : Nat}
    (hdraw : ∀ source, (draw.run source).1 < 1 <<< bits) (hwidth : 0 < width) :
    ((drawBelow draw bits width zone attempts).run source).1 < width := by
  have high : ∀ v, v < 1 <<< bits → (v * width) >>> bits < width := by
    intro v hv
    rw [Nat.one_shiftLeft] at hv
    rw [Nat.shiftRight_eq_div_pow]
    exact Nat.div_lt_of_lt_mul (Nat.mul_lt_mul_of_pos_right hv hwidth)
  induction attempts generalizing source with
  | zero => exact high _ (hdraw source)
  | succ attempts ih =>
    show (StateT.run (if _ then pure _ else drawBelow draw bits width zone attempts : Draw Nat)
      (draw.run source).2).1 < width
    split
    · exact high _ (hdraw source)
    · exact ih

theorem drawUniform_lt {draw : Draw Nat} {bits : Nat}
    (hdraw : ∀ source, (draw.run source).1 < 1 <<< bits) (hwidth : 0 < width) :
    ((drawUniform draw bits width zone).run source).1 < width :=
  drawBelow_lt hdraw hwidth

theorem below32_lt (hwidth : 0 < width) : ((below32 width).run source).1 < width :=
  drawUniform_lt (fun source => (source.word source.drawn).toNat_lt) hwidth

theorem nextPair_lt : (nextPair.run source).1 < 1 <<< 64 := by
  have low : (source.word source.drawn).toNat < 2 ^ 32 := UInt32.toNat_lt _
  have high : (source.word (source.drawn + 1)).toNat < 2 ^ 32 := UInt32.toNat_lt _
  have pair : (nextPair.run source).1 =
      ((source.word (source.drawn + 1)).toNat <<< 32) + (source.word source.drawn).toNat := rfl
  rw [pair, Nat.shiftLeft_eq, Nat.one_shiftLeft]
  omega

theorem below64_lt (hwidth : 0 < width) : ((below64 width).run source).1 < width :=
  drawUniform_lt (fun _ => nextPair_lt) hwidth

/-- The second number replaces the first where they meet. -/
theorem exists_of_chooseTwo (hn : 2 ≤ n) : ∃ a < n - 1, ∃ b < n,
    ((chooseTwo n).run source).1 = if b = a then (n - 1, a) else (a, b) :=
  ⟨_, below32_lt (by omega), _, below32_lt (by omega), rfl⟩

theorem ne_of_chooseTwo (hn : 2 ≤ n) :
    ((chooseTwo n).run source).1.1 ≠ ((chooseTwo n).run source).1.2 := by
  obtain ⟨a, ha, b, -, hchosen⟩ := exists_of_chooseTwo hn
  rw [hchosen]
  split
  · exact Nat.ne_of_gt ha
  · rename_i hne
    exact fun heq => hne heq.symm

theorem lt_of_chooseTwo (hn : 2 ≤ n) :
    ((chooseTwo n).run source).1.1 < n ∧ ((chooseTwo n).run source).1.2 < n := by
  obtain ⟨a, ha, b, hb, hchosen⟩ := exists_of_chooseTwo hn
  rw [hchosen]
  split <;> exact ⟨by omega, by omega⟩

theorem mem_of_choose (h : ((choose xs).run source).1 = some x) : x ∈ xs := by
  unfold choose at h
  split at h
  · cases h
  · exact List.mem_of_getElem? h

/-- A list that is not empty has a member to choose. -/
theorem exists_of_choose (h : xs ≠ []) : ∃ x, ((choose xs).run source).1 = some x := by
  unfold choose
  rw [if_neg (by simpa using h)]
  have hlt : ((below32 xs.length).run source).1 < xs.length :=
    below32_lt (List.length_pos_iff.2 h)
  exact ⟨_, List.getElem?_eq_getElem hlt⟩

end RestScenario.Random
