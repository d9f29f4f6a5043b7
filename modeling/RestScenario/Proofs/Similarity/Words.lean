import RestScenario.Proofs.Text
import RestScenario.Similarity

/-!
# Words of a name

**Words** (`IsWord`). Capitals with the small letters behind them make a word, and so do digits. So a
character is a word by itself exactly when it is a letter or digit, and in front of a word it makes a
longer one exactly when the word runs on from it (`isWord_cons_cons`).

**The cut** (`Cut`). Words are looked for from left to right. The longest word that begins at a character
is taken as a whole, and a character where none begins is passed over. `wordsOf` finds the same words from
the right, character by character, and there is no other cut (`cut_iff`).

Since every letter and digit begins a word, the words of a name together are its letters and digits
(`Cut.flatten_eq`), and in lower case they spell the normalized name (`tokens_spell_normalized_name`).
-/

namespace RestScenario.Similarity

/-- Capitals with small letters behind them; either may be missing. -/
def IsCapitalized (w : List Char) : Prop :=
  ∃ capitals smalls, w = capitals ++ smalls ∧ (∀ c ∈ capitals, c.isUpper = true) ∧
    ∀ c ∈ smalls, c.isLower = true

/-- A word: capitals with small letters behind them, or digits. -/
structure IsWord (w : List Char) : Prop where
  nonempty : w ≠ []
  kind : IsCapitalized w ∨ ∀ c ∈ w, c.isDigit = true

/-- The longest word that a text begins with. -/
structure IsLongestWord (w cs : List Char) : Prop where
  isWord : IsWord w
  begins : w <+: cs
  longest : ∀ w', IsWord w' → w' <+: cs → w'.length ≤ w.length

/-- The words of a text from left to right: the longest one wherever a word begins, and other characters
are passed over. -/
inductive Cut : List Char → List (List Char) → Prop
  | nil : Cut [] []
  | skip {c cs words} (hnone : ∀ w, IsWord w → ¬ w <+: c :: cs) (hrest : Cut cs words) :
      Cut (c :: cs) words
  | word {w cs words} (hlongest : IsLongestWord w cs) (hrest : Cut (cs.drop w.length) words) :
      Cut cs (w :: words)

variable {c d : Char} {cs w rest : List Char} {words words' : List (List Char)}

/-! ## Words -/

theorem isWord_iff : IsWord w ↔ w ≠ [] ∧ (IsCapitalized w ∨ ∀ c ∈ w, c.isDigit = true) :=
  ⟨fun h => ⟨h.nonempty, h.kind⟩, fun h => ⟨h.1, h.2⟩⟩

theorem isCapitalized_cons : IsCapitalized (c :: w) ↔
    c.isUpper = true ∧ IsCapitalized w ∨ c.isLower = true ∧ ∀ d ∈ w, d.isLower = true := by
  constructor
  · rintro ⟨capitals, smalls, heq, hcapitals, hsmalls⟩
    cases capitals with
    | nil =>
      rw [List.nil_append] at heq
      rw [← heq, List.forall_mem_cons] at hsmalls
      exact .inr hsmalls
    | cons first capitals =>
      obtain ⟨rfl, rfl⟩ := List.cons.inj heq
      rw [List.forall_mem_cons] at hcapitals
      exact .inl ⟨hcapitals.1, capitals, smalls, rfl, hcapitals.2, hsmalls⟩
  · rintro (⟨hupper, capitals, smalls, rfl, hcapitals, hsmalls⟩ | hlower)
    · exact ⟨c :: capitals, smalls, rfl, List.forall_mem_cons.2 ⟨hupper, hcapitals⟩, hsmalls⟩
    · exact ⟨[], c :: w, rfl, by simp, List.forall_mem_cons.2 hlower⟩

theorem isCapitalized_nil : IsCapitalized [] := ⟨[], [], rfl, by simp, by simp⟩

theorem isWord_singleton : IsWord [c] ↔ Text.isAlphanumeric c = true := by
  have hkind : (IsCapitalized [c] ∨ ∀ d ∈ [c], d.isDigit = true) ↔ Text.isAlphanumeric c = true := by
    simp [isCapitalized_cons, isCapitalized_nil, Text.isAlphanumeric]
  constructor
  · intro h
    exact hkind.1 h.kind
  · intro h
    exact ⟨by simp, hkind.2 h⟩

/-- **A character makes a longer word with one that runs on from it.** -/
theorem isWord_cons_cons : IsWord (c :: d :: w) ↔ runsOn c d = true ∧ IsWord (d :: w) := by
  -- no character is of two kinds, so `d` says of which kind both words are
  have hkind : (d.isUpper = true → d.isLower = false ∧ d.isDigit = false) ∧
      (d.isLower = true → d.isDigit = false) := by
    simp only [← Bool.not_eq_true, Text.isUpper_iff, Text.isLower_iff, Text.isDigit_iff]
    omega
  have hrun : runsOn c d = true ↔ c.isUpper = true ∧ (d.isUpper = true ∨ d.isLower = true) ∨
      c.isLower = true ∧ d.isLower = true ∨ c.isDigit = true ∧ d.isDigit = true := by
    simp [runsOn, or_assoc]
  simp only [isWord_iff, isCapitalized_cons, List.forall_mem_cons, hrun, ne_eq, reduceCtorEq,
    not_false_eq_true, true_and]
  grind

theorem IsWord.isAlphanumeric (h : IsWord w) : ∀ c ∈ w, Text.isAlphanumeric c = true := by
  intro c hc
  rcases h.kind with ⟨capitals, smalls, rfl, hcapitals, hsmalls⟩ | hdigits
  · rcases List.mem_append.1 hc with hc | hc
    · simp [Text.isAlphanumeric, hcapitals c hc]
    · simp [Text.isAlphanumeric, hsmalls c hc]
  · simp [Text.isAlphanumeric, hdigits c hc]

/-! ## The cut -/

/-- No word begins at a character that is no letter or digit. -/
theorem not_isPrefix_of_isWord (hc : Text.isAlphanumeric c = false) (hw : IsWord w) :
    ¬ w <+: c :: rest := by
  intro hbegins
  cases w with
  | nil => exact hw.nonempty rfl
  | cons first w =>
    have hfirst := hw.isAlphanumeric first (List.mem_cons_self ..)
    rw [(List.cons_prefix_cons.1 hbegins).1, hc] at hfirst
    contradiction

/-- A letter or digit runs on into the longest word behind it. -/
theorem IsLongestWord.cons (hrun : runsOn c d = true) (h : IsLongestWord w (d :: rest)) :
    IsLongestWord (c :: w) (c :: d :: rest) := by
  obtain ⟨hword, hbegins, hlongest⟩ := h
  cases w with
  | nil => exact absurd rfl hword.nonempty
  | cons first w =>
    obtain rfl := (List.cons_prefix_cons.1 hbegins).1
    refine ⟨isWord_cons_cons.2 ⟨hrun, hword⟩, List.cons_prefix_cons.2 ⟨rfl, hbegins⟩, ?_⟩
    intro w' hword' hbegins'
    match w' with
    | [] => simp
    | [_] => simp
    | first' :: second :: w' =>
      have htail := (List.cons_prefix_cons.1 hbegins').2
      simpa using hlongest _ (isWord_cons_cons.1 hword').2 htail

/-- A letter or digit that does not run on is a word by itself. -/
theorem isLongestWord_singleton (hc : Text.isAlphanumeric c = true)
    (hstop : ∀ d ∈ rest.head?, runsOn c d = false) : IsLongestWord [c] (c :: rest) := by
  refine ⟨isWord_singleton.2 hc, by simp, ?_⟩
  intro w hword hbegins
  match w with
  | [] => simp
  | [_] => simp
  | first :: second :: w =>
    obtain ⟨rfl, tail, rfl⟩ := List.cons_prefix_cons.1 hbegins
    have hrun := (isWord_cons_cons.1 hword).1
    rw [hstop second (by simp)] at hrun
    contradiction

theorem isAlphanumeric_of_runsOn (h : runsOn c d = true) :
    Text.isAlphanumeric c = true ∧ Text.isAlphanumeric d = true := by
  simp only [runsOn, Bool.or_eq_true, Bool.and_eq_true] at h
  simp only [Text.isAlphanumeric, Bool.or_eq_true]
  tauto

theorem Cut.exists_word (h : Cut (c :: cs) words) (hc : Text.isAlphanumeric c = true) :
    ∃ w words', words = w :: words' ∧ IsLongestWord w (c :: cs) ∧
      Cut ((c :: cs).drop w.length) words' := by
  cases h with
  | skip hnone => exact absurd (by simp) (hnone [c] (isWord_singleton.2 hc))
  | word hlongest hrest => exact ⟨_, _, rfl, hlongest, hrest⟩

theorem wordsOf_cons_of_stop (hc : Text.isAlphanumeric c = true)
    (hstop : ∀ d ∈ cs.head?, runsOn c d = false) : wordsOf (c :: cs) = [c] :: wordsOf cs := by
  rw [wordsOf, hc]
  cases hhead : cs.head? with
  | none => rfl
  | some d =>
    have hrun := hstop d hhead
    cases hwords : wordsOf cs with
    | nil => rfl
    | cons word words => simp [hrun]

/-- The words found from the right are the cut from the left. -/
theorem cut_wordsOf (cs : List Char) : Cut cs (wordsOf cs) := by
  induction cs with
  | nil => exact .nil
  | cons c cs ih =>
    by_cases hc : Text.isAlphanumeric c = true
    · by_cases hstop : ∀ d ∈ cs.head?, runsOn c d = false
      · rw [wordsOf_cons_of_stop hc hstop]
        exact .word (isLongestWord_singleton hc hstop) ih
      · -- the first word behind `c` begins at the next character and grows by `c`
        obtain ⟨d, rest, rfl, hrun⟩ : ∃ d rest, cs = d :: rest ∧ runsOn c d = true := by
          cases cs with
          | nil => simp at hstop
          | cons d rest => exact ⟨d, rest, rfl, by simpa using hstop⟩
        obtain ⟨word, words, hwords, hlongest, hrest⟩ := ih.exists_word (isAlphanumeric_of_runsOn hrun).2
        have hcons : wordsOf (c :: d :: rest) = (c :: word) :: words := by
          rw [wordsOf, hc, hwords]
          simp [hrun]
        rw [hcons]
        exact .word (hlongest.cons hrun) hrest
    · rw [Bool.not_eq_true] at hc
      simpa [wordsOf, hc] using Cut.skip (fun w hw => not_isPrefix_of_isWord hc hw) ih

theorem IsLongestWord.unique {w' : List Char} (h : IsLongestWord w cs) (h' : IsLongestWord w' cs) :
    w = w' := by
  have hlength : w.length = w'.length :=
    Nat.le_antisymm (h'.longest w h.isWord h.begins) (h.longest w' h'.isWord h'.begins)
  exact (List.prefix_of_prefix_length_le h.begins h'.begins hlength.le).eq_of_length hlength

theorem Cut.unique (h : Cut cs words) (h' : Cut cs words') : words = words' := by
  induction h generalizing words' with
  | nil =>
    cases h' with
    | nil => rfl
    | word hlongest _ => exact absurd (List.prefix_nil.1 hlongest.begins) hlongest.isWord.nonempty
  | skip hnone _ ih =>
    cases h' with
    | skip _ hrest => exact ih hrest
    | word hlongest _ => exact absurd hlongest.begins (hnone _ hlongest.isWord)
  | word hlongest hrest ih =>
    cases h' with
    | nil => exact absurd (List.prefix_nil.1 hlongest.begins) hlongest.isWord.nonempty
    | skip hnone _ => exact absurd hlongest.begins (hnone _ hlongest.isWord)
    | word hlongest' hrest' =>
      obtain rfl := hlongest.unique hlongest'
      rw [ih hrest']

/-- **`wordsOf` is the only cut of a text.** -/
theorem cut_iff : Cut cs words ↔ words = wordsOf cs := by
  constructor
  · intro h
    exact h.unique (cut_wordsOf cs)
  · rintro rfl
    exact cut_wordsOf cs

/-! ## Nothing is lost -/

theorem Cut.isWord (h : Cut cs words) : ∀ w ∈ words, IsWord w := by
  induction h with
  | nil => simp
  | skip _ _ ih => exact ih
  | word hlongest _ ih => exact List.forall_mem_cons.2 ⟨hlongest.isWord, ih⟩

/-- **The words of a text together are its letters and digits.** -/
theorem Cut.flatten_eq (h : Cut cs words) : words.flatten = cs.filter Text.isAlphanumeric := by
  induction h with
  | nil => rfl
  | @skip c cs words hnone _ ih =>
    have hc : ¬ Text.isAlphanumeric c = true := by
      intro hc
      exact hnone [c] (isWord_singleton.2 hc) (by simp)
    rw [List.filter_cons_of_neg hc, ih]
  | @word w cs words hlongest _ ih =>
    have hfilter : w.filter Text.isAlphanumeric = w :=
      List.filter_eq_self.2 hlongest.isWord.isAlphanumeric
    calc (w :: words).flatten = w ++ (cs.drop w.length).filter Text.isAlphanumeric := by
            rw [List.flatten_cons, ih]
      _ = (w ++ cs.drop w.length).filter Text.isAlphanumeric := by
            rw [List.filter_append, hfilter]
      _ = cs.filter Text.isAlphanumeric := by
            rw [List.prefix_iff_eq_append.1 hlongest.begins]

/-! ## Lower case -/

theorem isLower_toLower (h : c.isUpper = true ∨ c.isLower = true) : c.toLower.isLower = true := by
  rw [Text.isUpper_iff, Text.isLower_iff] at h
  rw [Text.isLower_iff, Text.toNat_toLower]
  split <;> omega

theorem isDigit_toLower (h : c.isDigit = true) : c.toLower.isDigit = true := by
  rw [Text.isDigit_iff] at h
  rw [Text.isDigit_iff, Text.toNat_toLower]
  split <;> omega

/-- In lower case, a word consists of small letters or of digits. -/
theorem IsWord.lowerChars (h : IsWord w) :
    (∀ c ∈ Text.lowerChars w, c.isLower = true) ∨ ∀ c ∈ Text.lowerChars w, c.isDigit = true := by
  simp only [Text.lowerChars, List.forall_mem_map]
  rcases h.kind with ⟨capitals, smalls, rfl, hcapitals, hsmalls⟩ | hdigits
  · left
    intro c hc
    rcases List.mem_append.1 hc with hc | hc
    · exact isLower_toLower (.inl (hcapitals c hc))
    · exact isLower_toLower (.inr (hsmalls c hc))
  · right
    intro c hc
    exact isDigit_toLower (hdigits c hc)

/-- **The tokens of a name spell its normalized form.** They are its words from left to right, each the
longest that begins where it does, and in lower case each consists of small letters or of digits. -/
theorem tokens_spell_normalized_name (s : String) :
    (∀ words, Cut s.toList words ↔ words = wordsOf s.toList) ∧
      String.join (tokenize s) = normalize s ∧
      ∀ t ∈ tokenize s, t ≠ "" ∧
        ((∀ c ∈ t.toList, c.isLower = true) ∨ ∀ c ∈ t.toList, c.isDigit = true) := by
  have hcut := cut_wordsOf s.toList
  refine ⟨fun words => cut_iff, ?_, ?_⟩
  · have htokens : (tokenize s).flatMap String.toList = Text.lowerChars (wordsOf s.toList).flatten := by
      simp [tokenize, Text.lowerChars, List.flatMap_def, List.map_flatten, Function.comp_def]
    apply String.toList_inj.1
    rw [String.toList_join, htokens, hcut.flatten_eq]
    simp [normalize, normalizeChars]
  · intro t ht
    obtain ⟨w, hw, rfl⟩ := List.mem_map.1 ht
    have hword := hcut.isWord w hw
    constructor
    · have hne : Text.lowerChars w ≠ [] := by simpa [Text.lowerChars] using hword.nonempty
      simpa using hne
    · simpa using hword.lowerChars

/-- A number stands apart from the letters around it, and a hyphen is lost. -/
example : tokenize "orderItems2-HTTPServer" = ["order", "items", "2", "httpserver"] := by decide +kernel

end RestScenario.Similarity
