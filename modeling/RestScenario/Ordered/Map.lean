/-!
# Maps in key order

A `SortedMap` is an association list whose keys increase strictly. The order of the entries is
part of the value, so two maps with the same entries are the same map, and every walk over a map
meets its keys in increasing order. Names are compared by code point.

Main statements: `SortedMap.get?_upsert_self` and `SortedMap.get?_upsert_of_ne` say what an update
does to a look-up.
-/

namespace RestScenario

variable {α β γ : Type} [Ord α]

/-! ## Entry lists -/

/-- Keys increase strictly. -/
def Increasing (entries : List (α × β)) : Prop :=
  entries.Pairwise fun a b => compare a.1 b.1 = .lt

/-- The value filed under `k`. -/
def lookupEntry (k : α) : List (α × β) → Option β
  | [] => none
  | (a, b) :: rest => if compare k a = .eq then some b else lookupEntry k rest

/-- Files `f none` under a new key, and `f (some b)` where `b` was filed before. -/
def upsertEntry (k : α) (f : Option β → β) : List (α × β) → List (α × β)
  | [] => [(k, f none)]
  | (a, b) :: rest =>
    match compare k a with
    | .lt => (k, f none) :: (a, b) :: rest
    | .eq => (a, f (some b)) :: rest
    | .gt => (a, b) :: upsertEntry k f rest

theorem fst_of_mem_upsertEntry {k : α} {f : Option β → β} {entries : List (α × β)} {e : α × β}
    (h : e ∈ upsertEntry k f entries) : e.1 = k ∨ e.1 ∈ entries.map (·.1) := by
  induction entries with
  | nil => simp_all [upsertEntry]
  | cons d rest ih =>
    obtain ⟨a, b⟩ := d
    rw [upsertEntry] at h
    split at h <;> grind

theorem increasing_upsertEntry [Std.TransOrd α] {entries : List (α × β)} (h : Increasing entries)
    (k : α) (f : Option β → β) : Increasing (upsertEntry k f entries) := by
  induction entries with
  | nil => simp [upsertEntry, Increasing]
  | cons d rest ih =>
    obtain ⟨a, b⟩ := d
    obtain ⟨hhead, hrest⟩ := List.pairwise_cons.1 h
    rw [upsertEntry]
    split
    · rename_i hk
      refine List.pairwise_cons.2 ⟨fun e he => ?_, h⟩
      rcases List.mem_cons.1 he with rfl | he
      · exact hk
      · exact Std.TransCmp.lt_trans hk (hhead e he)
    · exact List.pairwise_cons.2 ⟨fun e he => hhead e he, hrest⟩
    · rename_i hk
      refine List.pairwise_cons.2 ⟨fun e he => ?_, ih hrest⟩
      rcases fst_of_mem_upsertEntry he with hek | hmem
      · rw [hek]; exact Std.OrientedCmp.lt_of_gt hk
      · obtain ⟨d, hd, hde⟩ := List.mem_map.1 hmem
        rw [← hde]; exact hhead d hd

theorem lookupEntry_upsertEntry_self [Std.ReflOrd α] (k : α) (f : Option β → β)
    {entries : List (α × β)} (h : Increasing entries) [Std.TransOrd α] :
    lookupEntry k (upsertEntry k f entries) = some (f (lookupEntry k entries)) := by
  induction entries with
  | nil => simp [upsertEntry, lookupEntry]
  | cons d rest ih =>
    obtain ⟨a, b⟩ := d
    obtain ⟨hhead, hrest⟩ := List.pairwise_cons.1 h
    have absent : ∀ xs : List (α × β), (∀ e ∈ xs, compare k e.1 = .lt) →
        lookupEntry k xs = none := by
      intro xs hxs
      induction xs with
      | nil => rfl
      | cons e xs ihx =>
        obtain ⟨c, v⟩ := e
        have := hxs (c, v) (by simp)
        simp only at this
        rw [lookupEntry, this]
        simpa using ihx fun e he => hxs e (by simp [he])
    rw [upsertEntry]
    split <;> rename_i hk
    · have : lookupEntry k ((a, b) :: rest) = none := by
        refine absent _ fun e he => ?_
        rcases List.mem_cons.1 he with rfl | he
        · exact hk
        · exact Std.TransCmp.lt_trans hk (hhead e he)
      rw [this, lookupEntry]; simp
    · simp [lookupEntry, hk]
    · simp [lookupEntry, hk, ih hrest]

theorem lookupEntry_upsertEntry_of_ne [Std.LawfulEqOrd α] {k l : α} (hkl : l ≠ k)
    (f : Option β → β) (entries : List (α × β)) :
    lookupEntry l (upsertEntry k f entries) = lookupEntry l entries := by
  induction entries with
  | nil => simp [upsertEntry, lookupEntry, hkl]
  | cons d rest ih =>
    obtain ⟨a, b⟩ := d
    rw [upsertEntry]
    split <;> rename_i hk
    · simp [lookupEntry, hkl]
    · have : k = a := by simpa using hk
      subst this
      simp [lookupEntry, hkl]
    · simp [lookupEntry, ih]

/-! ## The type -/

/-- A finite map that keeps its entries in increasing order of their keys. -/
@[ext]
structure SortedMap (α β : Type) [Ord α] where
  entries : List (α × β)
  increasing : Increasing entries
deriving DecidableEq

namespace SortedMap

/-- The map without entries. -/
def empty : SortedMap α β := ⟨[], List.Pairwise.nil⟩

instance : EmptyCollection (SortedMap α β) := ⟨empty⟩

instance : Inhabited (SortedMap α β) := ⟨empty⟩

/-- The value filed under `k`. -/
def get? (m : SortedMap α β) (k : α) : Option β := lookupEntry k m.entries

/-- Whether something is filed under `k`. -/
def contains (m : SortedMap α β) (k : α) : Bool := (m.get? k).isSome

/-- The keys, increasing. -/
def keys (m : SortedMap α β) : List α := m.entries.map (·.1)

/-- The values, in the order of their keys. -/
def values (m : SortedMap α β) : List β := m.entries.map (·.2)

/-- The number of entries. -/
def size (m : SortedMap α β) : Nat := m.entries.length

/-- Whether there is no entry. -/
def isEmpty (m : SortedMap α β) : Bool := m.entries.isEmpty

/-- Applies `f` to every key with its value, and files the image under the same key. -/
def map (f : α → β → γ) (m : SortedMap α β) : SortedMap α γ :=
  ⟨m.entries.map fun e => (e.1, f e.1 e.2), List.pairwise_map.2 (m.increasing.imp fun h => h)⟩

/-- The entries that pass a test. -/
def filter (test : α → β → Bool) (m : SortedMap α β) : SortedMap α β :=
  ⟨m.entries.filter fun e => test e.1 e.2, List.Pairwise.filter _ m.increasing⟩

@[simp]
theorem get?_empty (k : α) : (empty : SortedMap α β).get? k = none := rfl

variable [Std.TransOrd α]

/-- Replaces what is filed under `k` by its image under `f`, which sees `none` for a new key. -/
def upsert (m : SortedMap α β) (k : α) (f : Option β → β) : SortedMap α β :=
  ⟨upsertEntry k f m.entries, increasing_upsertEntry m.increasing k f⟩

/-- Files `v` under `k`, in place of what was there. -/
def insert (m : SortedMap α β) (k : α) (v : β) : SortedMap α β := m.upsert k fun _ => v

/-- Replaces the value filed under `k`, if there is one. -/
def modify (m : SortedMap α β) (k : α) (f : β → β) : SortedMap α β :=
  match m.get? k with
  | some v => m.insert k (f v)
  | none => m

/-- Files pairs one after another; the last value of a key stays. -/
def ofList (pairs : List (α × β)) : SortedMap α β :=
  pairs.foldl (fun m e => m.insert e.1 e.2) empty

/-- What an update does to the look-up of its own key. -/
@[simp]
theorem get?_upsert_self (m : SortedMap α β) (k : α) (f : Option β → β) :
    (m.upsert k f).get? k = some (f (m.get? k)) :=
  lookupEntry_upsertEntry_self k f m.increasing

/-- An update leaves the look-ups of all other keys alone. -/
theorem get?_upsert_of_ne [Std.LawfulEqOrd α] (m : SortedMap α β) {k l : α} (h : l ≠ k)
    (f : Option β → β) : (m.upsert k f).get? l = m.get? l :=
  lookupEntry_upsertEntry_of_ne h f m.entries

@[simp]
theorem get?_insert_self (m : SortedMap α β) (k : α) (v : β) :
    (m.insert k v).get? k = some v := m.get?_upsert_self k _

theorem get?_insert_of_ne [Std.LawfulEqOrd α] (m : SortedMap α β) {k l : α} (h : l ≠ k) (v : β) :
    (m.insert k v).get? l = m.get? l := m.get?_upsert_of_ne h _

end SortedMap

end RestScenario
