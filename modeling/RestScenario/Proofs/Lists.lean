import Mathlib.Data.List.Basic
import Mathlib.Data.List.Forall2

/-!
# Lists

Facts about lists that several proofs use: a list around one of its members, what is found under a
key, the member with the greatest measure, images that leave members as they are, and lists whose
members correspond one by one.
-/

namespace RestScenario

variable {α : Type} {xs front back : List α} {x : α} {n : Nat}

/-! ## By position -/

theorem split_of_getElem? (h : xs[n]? = some x) :
    ∃ front back, xs = front ++ x :: back ∧ front.length = n := by
  obtain ⟨hlt, rfl⟩ := List.getElem?_eq_some_iff.1 h
  refine ⟨xs.take n, xs.drop (n + 1), ?_, List.length_take_of_le (Nat.le_of_lt hlt)⟩
  rw [← List.drop_eq_getElem_cons hlt, List.take_append_drop]

theorem insertIdx_append : (front ++ back).insertIdx front.length x = front ++ x :: back := by
  induction front with
  | nil => rfl
  | cons a rest ih => exact congrArg (a :: ·) ih

/-- Where a measure takes no value twice, an element is the only one with its value. -/
theorem filter_eq_singleton_of_nodup_map {β : Type} [DecidableEq β] {f : α → β}
    (h : (xs.map f).Nodup) (hx : x ∈ xs) : xs.filter (fun y => f y = f x) = [x] := by
  obtain ⟨front, back, rfl⟩ := List.append_of_mem hx
  rw [List.map_append, List.map_cons, List.nodup_append] at h
  obtain ⟨-, hback, hfront⟩ := h
  have hbefore : front.filter (fun y => f y = f x) = [] := by
    refine List.filter_eq_nil_iff.2 fun y hy => ?_
    simpa using hfront _ (List.mem_map_of_mem hy) _ List.mem_cons_self
  have hafter : back.filter (fun y => f y = f x) = [] := by
    refine List.filter_eq_nil_iff.2 fun y hy => ?_
    have hne : f y ≠ f x := fun heq => (List.nodup_cons.1 hback).1 (heq ▸ List.mem_map_of_mem hy)
    simpa using hne
  rw [List.filter_append, hbefore, List.filter_cons_of_pos (by simp), hafter, List.nil_append]

section UpTo

variable [DecidableEq α]

theorem takeWhile_append_cons (h : x ∉ front) :
    (front ++ x :: back).takeWhile (· ≠ x) = front := by
  have hfront : ∀ y ∈ front, decide (y ≠ x) = true := by grind
  rw [List.takeWhile_append_of_pos hfront, List.takeWhile_cons_of_neg (by simp), List.append_nil]

theorem dropWhile_append_cons (h : x ∉ front) :
    (front ++ x :: back).dropWhile (· ≠ x) = x :: back := by
  have hfront : ∀ y ∈ front, decide (y ≠ x) = true := by grind
  rw [List.dropWhile_append_of_pos hfront, List.dropWhile_cons_of_neg (by simp)]

end UpTo

section Find

variable {β : Type} [DecidableEq β] {f : α → β} {ys : List α} {b : β}

/-- Where a measure takes no value twice, what is found with a value is what has it. -/
theorem find?_eq_some_iff_of_nodup_map (h : (xs.map f).Nodup) :
    xs.find? (f · = b) = some x ↔ x ∈ xs ∧ f x = b := by
  constructor
  · intro hfound
    exact ⟨List.mem_of_find?_eq_some hfound, by simpa using List.find?_some hfound⟩
  · rintro ⟨hx, rfl⟩
    rw [← List.head?_filter, filter_eq_singleton_of_nodup_map h hx, List.head?_cons]

/-- What is found then is found in any order. -/
theorem find?_eq_of_perm (h : xs.Perm ys) (hnodup : (xs.map f).Nodup) :
    xs.find? (f · = b) = ys.find? (f · = b) := by
  have hnodup' : (ys.map f).Nodup := (h.map f).nodup_iff.1 hnodup
  ext x
  rw [find?_eq_some_iff_of_nodup_map hnodup, find?_eq_some_iff_of_nodup_map hnodup', h.mem_iff]

end Find

/-- Where the members of a list look alike, it looks the same at the front in any order. -/
theorem head?_map_of_perm {β : Type} {f : α → β} {ys : List α} (h : ys.Perm xs)
    (hf : ∀ x ∈ xs, ∀ y ∈ xs, f x = f y) : ys.head?.map f = xs.head?.map f := by
  cases ys with
  | nil => rw [List.nil_perm.1 h]
  | cons y back =>
    cases xs with
    | nil => simp at h
    | cons x rest => exact congrArg some (hf y (h.subset List.mem_cons_self) x List.mem_cons_self)

theorem mem_takeWhile_of_take {test : α → Bool} (hfront : ∀ y ∈ xs.take n, test y = true)
    (hn : xs[n]? = some x) (hx : test x = true) : x ∈ xs.takeWhile test := by
  induction xs generalizing n with
  | nil => cases hn
  | cons y rest ih =>
    cases n with
    | zero =>
      obtain rfl : y = x := by simpa using hn
      simp [hx]
    | succ n =>
      rw [List.take_succ_cons, List.forall_mem_cons] at hfront
      rw [List.takeWhile_cons_of_pos hfront.1]
      exact List.mem_cons_of_mem y (ih hfront.2 hn)

/-! ## By key -/

/-- A key that has one value only is looked up with that value. -/
theorem lookup_eq_some_of_mem {κ β : Type} [BEq κ] [LawfulBEq κ] {entries : List (κ × β)} {k : κ}
    {v : β} (hmem : (k, v) ∈ entries) (hone : ∀ w, (k, w) ∈ entries → w = v) :
    entries.lookup k = some v := by
  cases h : entries.lookup k with
  | none => simpa using List.lookup_eq_none_iff.1 h _ hmem
  | some w =>
    obtain ⟨front, back, rfl, -⟩ := List.lookup_eq_some_iff.1 h
    rw [hone w (by simp)]

/-! ## By measure -/

theorem mem_foldl_max (n : Nat) (ns : List Nat) : ns.foldl max n ∈ n :: ns := by
  induction ns generalizing n with
  | nil => simp
  | cons m rest ih =>
    rw [List.foldl_cons]
    rcases List.mem_cons.1 (ih (max n m)) with h | h
    · rw [h]
      rcases Nat.le_total n m with hnm | hmn
      · simp [Nat.max_eq_right hnm]
      · simp [Nat.max_eq_left hmn]
    · exact List.mem_cons_of_mem _ (List.mem_cons_of_mem _ h)

/-- The greatest measure is that of a member. -/
theorem exists_eq_foldl_max (measure : α → Nat) (h : xs ≠ []) :
    ∃ x ∈ xs, measure x = (xs.map measure).foldl max 0 := by
  refine List.mem_map.1 ?_
  cases xs with
  | nil => contradiction
  | cons first rest =>
    rw [List.map_cons, List.foldl_cons, Nat.zero_max]
    exact mem_foldl_max _ _

theorem le_foldl_max {ns : List Nat} : ∀ m ∈ n :: ns, m ≤ ns.foldl max n := by
  induction ns generalizing n with
  | nil => simp
  | cons k rest ih =>
    obtain ⟨hmax, hrest⟩ := List.forall_mem_cons.1 (ih (n := max n k))
    rw [List.foldl_cons, List.forall_mem_cons, List.forall_mem_cons]
    exact ⟨Nat.le_trans (Nat.le_max_left n k) hmax, Nat.le_trans (Nat.le_max_right n k) hmax, hrest⟩

/-- No member has a greater measure than the greatest. -/
theorem measure_le_foldl_max (measure : α → Nat) (hx : x ∈ xs) :
    measure x ≤ (xs.map measure).foldl max 0 :=
  le_foldl_max _ (List.mem_cons_of_mem _ (List.mem_map_of_mem hx))

/-- Where a sum is nothing, so is each of its members. -/
theorem eq_zero_of_mem_of_foldl_add {ns : List Nat} (h : ns.foldl (· + ·) 0 = 0) (hn : n ∈ ns) :
    n = 0 := by
  have zeros : ∀ (ns : List Nat) (init : Nat), ns.foldl (· + ·) init = 0 →
      init = 0 ∧ ∀ m ∈ ns, m = 0 := by
    intro ns
    induction ns with
    | nil => simp
    | cons m rest ih =>
      intro init hsum
      obtain ⟨hinit, hrest⟩ := ih (init + m) hsum
      exact ⟨by omega, List.forall_mem_cons.2 ⟨by omega, hrest⟩⟩
  exact (zeros ns 0 h).2 n hn

/-! ## Images -/

theorem map_eq_self_iff {change : α → α} : xs.map change = xs ↔ ∀ x ∈ xs, change x = x := by
  conv_lhs => rhs; rw [← List.map_id xs]
  exact List.map_inj_left

/-- What passes a test is the same in an image where it is left as it is. -/
theorem filter_map_eq_self {test : α → Bool} {change : α → α}
    (htest : ∀ x, test (change x) = test x) (hfixed : ∀ x ∈ xs, test x = true → change x = x) :
    (xs.map change).filter test = xs.filter test := by
  have hcomp : test ∘ change = test := funext htest
  rw [List.filter_map, hcomp, map_eq_self_iff]
  intro x hx
  exact hfixed x (List.mem_filter.1 hx).1 (List.mem_filter.1 hx).2

/-! ## One by one -/

section OneByOne

variable {β : Type} {R : α → β → Prop} {ys : List β} {y : β}

theorem exists_mem_of_forall₂ (h : List.Forall₂ R xs ys) (hy : y ∈ ys) : ∃ x ∈ xs, R x y := by
  induction h with
  | nil => cases hy
  | cons hr _ ih =>
    rcases List.mem_cons.1 hy with rfl | hy
    · exact ⟨_, List.mem_cons_self, hr⟩
    · obtain ⟨x, hx, hr⟩ := ih hy
      exact ⟨x, List.mem_cons_of_mem _ hx, hr⟩

theorem exists_forall₂_iff : (∃ ys, List.Forall₂ R xs ys) ↔ ∀ x ∈ xs, ∃ y, R x y := by
  induction xs with
  | nil => simp
  | cons x rest ih =>
    rw [List.forall_mem_cons, ← ih]
    simp only [List.forall₂_cons_left_iff]
    constructor
    · rintro ⟨-, y, ys, hr, hrest, -⟩
      exact ⟨⟨y, hr⟩, ys, hrest⟩
    · rintro ⟨⟨y, hr⟩, ys, hrest⟩
      exact ⟨y :: ys, y, ys, hr, hrest, rfl⟩

/-- What a partial function gives, one by one for the members on which it gives something. -/
theorem forall₂_filterMap {f : α → Option β} {test : α → Bool}
    (h : ∀ x ∈ xs, test x = (f x).isSome) :
    List.Forall₂ (fun x y => f x = some y) (xs.filter test) (xs.filterMap f) := by
  induction xs with
  | nil => exact .nil
  | cons x rest ih =>
    obtain ⟨hhead, htail⟩ := List.forall_mem_cons.1 h
    cases hx : f x with
    | none =>
      rw [List.filter_cons_of_neg (by simp [hhead, hx]), List.filterMap_cons_none hx]
      exact ih htail
    | some y =>
      rw [List.filter_cons_of_pos (by simp [hhead, hx]), List.filterMap_cons_some hx]
      exact .cons hx (ih htail)

theorem pairwise_of_forall₂ {S : α → α → Prop} {T : β → β → Prop} (h : List.Forall₂ R xs ys)
    (hxs : xs.Pairwise S) (hST : ∀ x x' y y', R x y → R x' y' → S x x' → T y y') :
    ys.Pairwise T := by
  induction h with
  | nil => exact .nil
  | cons hr hrest ih =>
    obtain ⟨hhead, htail⟩ := List.pairwise_cons.1 hxs
    refine .cons (fun y hy => ?_) (ih htail)
    obtain ⟨x, hx, hr'⟩ := exists_mem_of_forall₂ hrest hy
    exact hST _ _ _ _ hr hr' (hhead x hx)

/-- A test that one of several different members decides is passed by its counterpart alone. -/
theorem countP_eq_one_of_forall₂ {test : β → Bool} (h : List.Forall₂ R xs ys) (hxs : xs.Nodup)
    (hx : x ∈ xs) (htest : ∀ x' ∈ xs, ∀ y, R x' y → (test y = true ↔ x' = x)) :
    ys.countP test = 1 := by
  induction h with
  | nil => cases hx
  | @cons x' y' xs ys hr hrest ih =>
    obtain ⟨hfresh, hnodup⟩ := List.nodup_cons.1 hxs
    obtain ⟨hhead, htail⟩ := List.forall_mem_cons.1 htest
    rw [List.countP_cons]
    by_cases heq : x' = x
    · have hnone : ys.countP test = 0 := by
        refine List.countP_eq_zero.2 fun y hy hpass => ?_
        obtain ⟨x'', hx'', hr''⟩ := exists_mem_of_forall₂ hrest hy
        exact hfresh (heq ▸ (htail x'' hx'' y hr'').1 hpass ▸ hx'')
      rw [hnone, if_pos ((hhead y' hr).2 heq)]
    · rw [ih hnodup ((List.mem_cons.1 hx).resolve_left (Ne.symm heq)) htail,
        if_neg (fun hpass => heq ((hhead y' hr).1 hpass))]

end OneByOne

end RestScenario
