/-!
# Sets in increasing order

A `SortedSet` is a list whose members increase strictly. Two sets with the same members are the
same value, and a walk over a set meets its members in increasing order.

Main statement: `SortedSet.mem_insert`.
-/

namespace RestScenario

variable {α : Type} [Ord α]

/-! ## Increasing lists -/

/-- Adds `x` to an increasing list at its place. -/
def insertMember (x : α) : List α → List α
  | [] => [x]
  | a :: rest =>
    match compare x a with
    | .lt => x :: a :: rest
    | .eq => a :: rest
    | .gt => a :: insertMember x rest

theorem mem_insertMember [Std.LawfulEqOrd α] {x y : α} {members : List α} :
    y ∈ insertMember x members ↔ y = x ∨ y ∈ members := by
  induction members with
  | nil => simp [insertMember]
  | cons a rest ih =>
    rw [insertMember]
    split <;> rename_i hx
    · simp
    · have : x = a := by simpa using hx
      subst this
      simp
    · simp only [List.mem_cons, ih]
      grind

theorem increasing_insertMember [Std.TransOrd α] [Std.LawfulEqOrd α] {members : List α}
    (h : members.Pairwise fun a b => compare a b = .lt) (x : α) :
    (insertMember x members).Pairwise fun a b => compare a b = .lt := by
  induction members with
  | nil => simp [insertMember]
  | cons a rest ih =>
    obtain ⟨hhead, hrest⟩ := List.pairwise_cons.1 h
    rw [insertMember]
    split <;> rename_i hx
    · refine List.pairwise_cons.2 ⟨fun b hb => ?_, h⟩
      rcases List.mem_cons.1 hb with rfl | hb
      · exact hx
      · exact Std.TransCmp.lt_trans hx (hhead b hb)
    · exact h
    · refine List.pairwise_cons.2 ⟨fun b hb => ?_, ih hrest⟩
      rcases mem_insertMember.1 hb with rfl | hb
      · exact Std.OrientedCmp.lt_of_gt hx
      · exact hhead b hb

/-! ## The type -/

/-- A finite set that keeps its members in increasing order. -/
@[ext]
structure SortedSet (α : Type) [Ord α] where
  toList : List α
  increasing : toList.Pairwise fun a b => compare a b = .lt
deriving DecidableEq

namespace SortedSet

/-- The set without members. -/
def empty : SortedSet α := ⟨[], List.Pairwise.nil⟩

instance : EmptyCollection (SortedSet α) := ⟨empty⟩

instance : Inhabited (SortedSet α) := ⟨empty⟩

instance : Membership α (SortedSet α) := ⟨fun s x => x ∈ s.toList⟩

instance [DecidableEq α] (x : α) (s : SortedSet α) : Decidable (x ∈ s) :=
  inferInstanceAs (Decidable (x ∈ s.toList))

/-- The number of members. -/
def size (s : SortedSet α) : Nat := s.toList.length

/-- Whether there is no member. -/
def isEmpty (s : SortedSet α) : Bool := s.toList.isEmpty

/-- The members that pass a test. -/
def filter (test : α → Bool) (s : SortedSet α) : SortedSet α :=
  ⟨s.toList.filter test, List.Pairwise.filter _ s.increasing⟩

/-- Every member of the first is a member of the second. -/
def isSubset [DecidableEq α] (s t : SortedSet α) : Bool := s.toList.all fun x => decide (x ∈ t)

/-- The set of one member. -/
def singleton (x : α) : SortedSet α := ⟨[x], List.pairwise_singleton _ x⟩

variable [Std.TransOrd α] [Std.LawfulEqOrd α]

/-- The set with one member more. -/
def insert (s : SortedSet α) (x : α) : SortedSet α :=
  ⟨insertMember x s.toList, increasing_insertMember s.increasing x⟩

/-- The set with the members of a list as well. -/
def insertMany (s : SortedSet α) (xs : List α) : SortedSet α := xs.foldl insert s

/-- The members of a list. -/
def ofList (xs : List α) : SortedSet α := empty.insertMany xs

/-- The members of either set. -/
def union (s t : SortedSet α) : SortedSet α := s.insertMany t.toList

@[simp]
theorem mem_insert {s : SortedSet α} {x y : α} : y ∈ s.insert x ↔ y = x ∨ y ∈ s :=
  mem_insertMember

@[simp]
theorem mem_insertMany {s : SortedSet α} {xs : List α} {y : α} :
    y ∈ s.insertMany xs ↔ y ∈ s ∨ y ∈ xs := by
  induction xs generalizing s with
  | nil => simp [insertMany]
  | cons x xs ih =>
    have : s.insertMany (x :: xs) = (s.insert x).insertMany xs := rfl
    rw [this, ih, mem_insert, List.mem_cons]
    grind

end SortedSet

end RestScenario
