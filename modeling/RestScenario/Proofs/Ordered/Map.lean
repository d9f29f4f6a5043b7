import RestScenario.Ordered.Map

/-!
# Entries and look-ups

The keys of a map differ, so an entry of a map is what a look-up of its key finds
(`SortedMap.mem_entries_iff`), and look-ups tell all of a map (`SortedMap.ext_get?`). An image of a map
is looked up like the map (`SortedMap.get?_map`), and a change that no image shows leaves the image as
it is (`SortedMap.map_modify`).
-/

namespace RestScenario

variable {α β γ : Type} [Ord α]

theorem mem_iff_lookupEntry [Std.LawfulEqOrd α] {k : α} {v : β} {entries : List (α × β)}
    (h : Increasing entries) : (k, v) ∈ entries ↔ lookupEntry k entries = some v := by
  induction entries with
  | nil => simp [lookupEntry]
  | cons e rest ih =>
    obtain ⟨a, b⟩ := e
    obtain ⟨hhead, hrest⟩ := List.pairwise_cons.1 h
    rw [lookupEntry, List.mem_cons, ih hrest]
    split
    · rename_i hk
      obtain rfl : k = a := by simpa using hk
      have absent : lookupEntry k rest ≠ some v := by
        intro hv
        have := hhead (k, v) ((ih hrest).2 hv)
        simp at this
      simp [absent, eq_comm]
    · rename_i hk
      have hne : k ≠ a := by simpa using hk
      simp [hne]

theorem lookupEntry_map [Std.LawfulEqOrd α] {f : α → β → γ} {k : α} {entries : List (α × β)} :
    lookupEntry k (entries.map fun e => (e.1, f e.1 e.2)) = (lookupEntry k entries).map (f k) := by
  induction entries with
  | nil => rfl
  | cons e rest ih =>
    rw [List.map_cons, lookupEntry, lookupEntry, ih]
    split
    · rename_i hk
      obtain rfl : k = e.1 := by simpa using hk
      rfl
    · rfl

theorem map_upsertEntry [Std.TransOrd α] [Std.LawfulEqOrd α] {g : β → γ} {f : Option β → β}
    {k : α} {v : β} {entries : List (α × β)} (hentries : Increasing entries)
    (hk : lookupEntry k entries = some v) (hf : g (f (some v)) = g v) :
    (upsertEntry k f entries).map (fun e => (e.1, g e.2)) =
      entries.map fun e => (e.1, g e.2) := by
  induction entries with
  | nil => simp [lookupEntry] at hk
  | cons e rest ih =>
    obtain ⟨a, b⟩ := e
    obtain ⟨hhead, hrest⟩ := List.pairwise_cons.1 hentries
    rw [lookupEntry] at hk
    rw [upsertEntry]
    split <;> rename_i hka
    · -- the key is filed behind a larger one
      simp only [hka, reduceCtorEq, if_false] at hk
      have behind := hhead (k, v) ((mem_iff_lookupEntry hrest).2 hk)
      rw [Std.OrientedCmp.gt_of_lt behind] at hka
      contradiction
    · simp only [hka, if_true, Option.some.injEq] at hk
      rw [hk, List.map_cons, List.map_cons, hf]
    · simp only [hka, reduceCtorEq, if_false] at hk
      rw [List.map_cons, List.map_cons, ih hrest hk]

namespace SortedMap

variable {m m' : SortedMap α β} {k l : α} {v : β}

theorem get?_map [Std.LawfulEqOrd α] {f : α → β → γ} : (m.map f).get? k = (m.get? k).map (f k) :=
  lookupEntry_map

theorem map_map {δ : Type} {f : α → β → γ} {g : α → γ → δ} :
    (m.map f).map g = m.map fun k v => g k (f k v) := by
  refine SortedMap.ext ?_
  show (m.entries.map _).map _ = _
  rw [List.map_map]
  rfl

theorem keys_map {f : α → β → γ} : (m.map f).keys = m.keys := by
  unfold keys map
  simp

theorem map_modify [Std.TransOrd α] [Std.LawfulEqOrd α] {g : β → γ} {f : β → β}
    (hf : ∀ v, g (f v) = g v) : (m.modify k f).map (fun _ => g) = m.map fun _ => g := by
  unfold modify
  split
  · rename_i v hv
    exact SortedMap.ext (map_upsertEntry m.increasing hv (hf v))
  · rfl

theorem mem_entries_iff [Std.LawfulEqOrd α] : (k, v) ∈ m.entries ↔ m.get? k = some v :=
  mem_iff_lookupEntry m.increasing

theorem mem_values_iff [Std.LawfulEqOrd α] : v ∈ m.values ↔ ∃ k, m.get? k = some v := by
  unfold values
  rw [List.mem_map]
  constructor
  · rintro ⟨⟨k, v⟩, hmem, rfl⟩
    exact ⟨k, mem_entries_iff.1 hmem⟩
  · rintro ⟨k, hk⟩
    exact ⟨(k, v), mem_entries_iff.2 hk, rfl⟩

theorem mem_keys_iff [Std.LawfulEqOrd α] : k ∈ m.keys ↔ m.contains k = true := by
  unfold keys contains
  rw [List.mem_map, Option.isSome_iff_exists]
  constructor
  · rintro ⟨⟨k, v⟩, hmem, rfl⟩
    exact ⟨v, mem_entries_iff.1 hmem⟩
  · rintro ⟨v, hv⟩
    exact ⟨(k, v), mem_entries_iff.2 hv, rfl⟩

theorem nodup_keys [Std.ReflOrd α] : m.keys.Nodup := by
  refine List.pairwise_map.2 (m.increasing.imp fun {a b} hlt heq => ?_)
  rw [heq] at hlt
  simp at hlt

/-- An update shows in the look-up of its own key alone. -/
theorem get?_upsert [Std.TransOrd α] [Std.LawfulEqOrd α] [DecidableEq α] {f : Option β → β} :
    (m.upsert k f).get? l = if l = k then some (f (m.get? k)) else m.get? l := by
  by_cases h : l = k
  · subst h
    simp
  · simp [get?_upsert_of_ne m h f, h]

theorem get?_insert [Std.TransOrd α] [Std.LawfulEqOrd α] [DecidableEq α] :
    (m.insert k v).get? l = if l = k then some v else m.get? l := get?_upsert

/-- Maps in which every key is filed with the same value are the same. -/
theorem ext_get? [Std.TransOrd α] [Std.LawfulEqOrd α] (h : ∀ k, m.get? k = m'.get? k) : m = m' := by
  have nodup : ∀ m : SortedMap α β, m.entries.Nodup := by
    intro m
    refine m.increasing.imp fun {a b} hlt heq => ?_
    simp [heq] at hlt
  have perm : m.entries.Perm m'.entries := by
    rw [List.perm_ext_iff_of_nodup (nodup m) (nodup m')]
    rintro ⟨k, v⟩
    rw [mem_entries_iff, mem_entries_iff, h k]
  refine SortedMap.ext (perm.eq_of_pairwise ?_ m.increasing m'.increasing)
  intro a b _ _ hab hba
  rw [Std.OrientedCmp.gt_of_lt hab] at hba
  contradiction

/-- A modification changes the value of one key, wherever that stands. -/
theorem modify_eq_map [Std.TransOrd α] [Std.LawfulEqOrd α] [DecidableEq α] {f : β → β} :
    m.modify k f = m.map fun l v => if l = k then f v else v := by
  refine ext_get? fun l => ?_
  rw [get?_map, modify]
  by_cases h : l = k
  · subst h
    cases hl : m.get? l <;> simp [hl]
  · cases m.get? k <;> simp [h, get?_insert]

end SortedMap

end RestScenario
