import Mathlib.Data.List.Nodup
import Mathlib.Data.List.Perm.Basic
import RestScenario.Learning.Inference

/-!
# Edits, and what they are recognized as

An edit adds, deletes, samples anew, replaces or exchanges calls at given positions (`Edited`). What
is learned from it starts with the two lists of calls alone: from their numbers, their resources and
the places where they differ, the edit is recognized for what it was (`Edited.recognized`). One kind
escapes: two calls on one resource that are exchanged leave the resources in order, and look like a
call sampled anew.

All that counts of a call here is its identity, so the same holds when other changes that show in no
identity come on top of an edit (`Edited.after_map`).
-/

namespace RestScenario

namespace Inference

/-! ## Where lists of calls differ -/

/-- The positions, counted from `n`, at which two lists of calls differ. -/
def mismatchesFrom (n : Nat) (previous current : List Call) : List Nat :=
  (((previous.zip current).zipIdx n).filter fun ((p, c), _) => !sameCall p c).map (·.2)

theorem mismatches_eq_mismatchesFrom {previous current : List Call} :
    mismatches previous current = mismatchesFrom 0 previous current := rfl

theorem sameCall_self (c : Call) : sameCall c c = true := by
  simp [sameCall]

theorem sameCall_of_resource_ne {a b : Call} (h : a.resource ≠ b.resource) :
    sameCall a b = false := by
  simp [sameCall, h]

/-- What calls are told apart by. -/
def identity (c : Call) : String × String × String := (c.resource, c.template.name, c.instanceKey)

theorem sameCall_eq_decide (a b : Call) : sameCall a b = decide (identity a = identity b) := by
  simp [sameCall, identity, Bool.and_assoc]

theorem mismatchesFrom_cons {n : Nat} {p c : Call} {ps cs : List Call} :
    mismatchesFrom n (p :: ps) (c :: cs) =
      if sameCall p c = true then mismatchesFrom (n + 1) ps cs
      else n :: mismatchesFrom (n + 1) ps cs := by
  unfold mismatchesFrom
  rw [List.zip_cons_cons, List.zipIdx_cons, List.filter_cons]
  cases h : sameCall p c <;> simp [h]

theorem mismatchesFrom_append {n : Nat} {front ps cs : List Call} :
    mismatchesFrom n (front ++ ps) (front ++ cs) = mismatchesFrom (n + front.length) ps cs := by
  induction front generalizing n with
  | nil => rfl
  | cons c rest ih =>
    rw [List.cons_append, List.cons_append, mismatchesFrom_cons, if_pos (sameCall_self c), ih]
    congr 1
    simp
    omega

theorem mismatchesFrom_self {n : Nat} {calls : List Call} : mismatchesFrom n calls calls = [] := by
  have ends : mismatchesFrom n (calls ++ []) (calls ++ []) =
      mismatchesFrom (n + calls.length) [] [] := mismatchesFrom_append
  simpa [mismatchesFrom] using ends

/-- Lists that part after a common front first differ there. -/
theorem firstMismatch_append {front ps cs : List Call}
    (h : ∀ p ∈ ps.head?, ∀ c ∈ cs.head?, sameCall p c = false) :
    firstMismatch (front ++ ps) (front ++ cs) = front.length := by
  unfold firstMismatch
  rw [mismatches_eq_mismatchesFrom, mismatchesFrom_append]
  cases ps with
  | nil => simp [mismatchesFrom]
  | cons p ps =>
    cases cs with
    | nil => simp [mismatchesFrom]
    | cons c cs =>
      rw [mismatchesFrom_cons, h p rfl c rfl]
      simp

/-- Calls differ only where both lists have one. -/
theorem lt_length_of_mem_mismatches {previous current : List Call} {i : Nat}
    (h : i ∈ mismatches previous current) : i < previous.length ∧ i < current.length := by
  obtain ⟨⟨pair, j⟩, hmem, rfl⟩ := List.mem_map.1 h
  have hlt := List.snd_lt_of_mem_zipIdx (List.mem_filter.1 hmem).1
  rw [List.length_zip] at hlt
  omega

/-- Differences are listed in the order of the calls. -/
theorem pairwise_mismatches (previous current : List Call) :
    (mismatches previous current).Pairwise (· < ·) := by
  have hall : ((previous.zip current).zipIdx.map (·.2)).Pairwise (· < ·) := by
    rw [List.zipIdx_map_snd]
    exact List.pairwise_lt_range'
  exact hall.sublist (List.filter_sublist.map _)

/-- Of two differences the first is in front of the second, and both lists reach to both. -/
theorem lt_of_mismatches_eq_pair {previous current : List Call} {p q : Nat}
    (h : mismatches previous current = [p, q]) :
    p < q ∧ q < previous.length ∧ q < current.length := by
  have hordered := pairwise_mismatches previous current
  rw [h] at hordered
  exact ⟨by simpa using hordered, lt_length_of_mem_mismatches (by simp [h])⟩

theorem firstMismatch_le (previous current : List Call) :
    firstMismatch previous current ≤ min previous.length current.length := by
  unfold firstMismatch
  cases hfirst : (mismatches previous current).head? with
  | none => exact Nat.le_refl _
  | some i =>
    have hlt := lt_length_of_mem_mismatches (List.mem_of_mem_head? hfirst)
    rw [Option.getD_some]
    omega

theorem firstMismatch_of_head? {previous current : List Call} {i : Nat}
    (h : (mismatches previous current).head? = some i) : firstMismatch previous current = i := by
  unfold firstMismatch
  rw [h, Option.getD_some]

theorem mismatches_replaced {front back : List Call} {old new : Call}
    (h : sameCall old new = false) :
    mismatches (front ++ old :: back) (front ++ new :: back) = [front.length] := by
  rw [mismatches_eq_mismatchesFrom, mismatchesFrom_append, mismatchesFrom_cons, h,
    mismatchesFrom_self]
  simp

theorem mismatches_exchanged {front middle back : List Call} {a b : Call}
    (h : a.resource ≠ b.resource) :
    mismatches (front ++ a :: (middle ++ b :: back)) (front ++ b :: (middle ++ a :: back)) =
      [front.length, front.length + 1 + middle.length] := by
  rw [mismatches_eq_mismatchesFrom, mismatchesFrom_append, mismatchesFrom_cons,
    sameCall_of_resource_ne h, mismatchesFrom_append, mismatchesFrom_cons,
    sameCall_of_resource_ne h.symm, mismatchesFrom_self]
  simp

theorem mismatches_congr {previous current current' : List Call}
    (h : current.map identity = current'.map identity) :
    mismatches previous current = mismatches previous current' := by
  suffices ∀ n, mismatchesFrom n previous current = mismatchesFrom n previous current' from this 0
  induction previous generalizing current current' with
  | nil => simp [mismatchesFrom]
  | cons p ps ih =>
    intro n
    cases current with
    | nil =>
      obtain rfl := List.map_eq_nil_iff.1 h.symm
      rfl
    | cons c cs =>
      cases current' with
      | nil => cases h
      | cons c' cs' =>
        rw [List.map_cons, List.map_cons, List.cons.injEq] at h
        obtain ⟨hc, hcs⟩ := h
        rw [mismatchesFrom_cons, mismatchesFrom_cons, sameCall_eq_decide, sameCall_eq_decide, hc,
          ih hcs]

theorem firstMismatch_congr {previous current current' : List Call}
    (h : current.map identity = current'.map identity) :
    firstMismatch previous current = firstMismatch previous current' := by
  have hlength := congrArg List.length h
  rw [List.length_map, List.length_map] at hlength
  unfold firstMismatch
  rw [mismatches_congr h, hlength]

/-! ## Edits -/

/-- `Edited kind positions previous current`: an edit at some positions turns `previous` into
`current`. -/
inductive Edited : Edit → List Nat → List Call → List Call → Prop where
  | add {front back : List Call} {added : Call} :
      Edited .add [front.length] (front ++ back) (front ++ added :: back)
  | delete {front back : List Call} {deleted : Call} :
      Edited .delete [front.length] (front ++ deleted :: back) (front ++ back)
  | modify {front back : List Call} {old new : Call} (resource : new.resource = old.resource) :
      Edited .modify [front.length] (front ++ old :: back) (front ++ new :: back)
  | replace {front back : List Call} {old new : Call}
      (fresh : ∀ c ∈ front ++ old :: back, c.resource ≠ new.resource) :
      Edited .replace [front.length] (front ++ old :: back) (front ++ new :: back)
  | swap {front middle back : List Call} {a b : Call} :
      Edited .swap [front.length, front.length + 1 + middle.length]
        (front ++ a :: (middle ++ b :: back)) (front ++ b :: (middle ++ a :: back))

/-- What an edit of the given calls is recognized as: itself, except that an exchange of two calls
on one resource is taken for a call sampled anew. -/
inductive Recognized (calls : List Call) : Edit → List Nat → Edit → Prop where
  | itself {edit : Edit} {positions : List Nat} (h : edit ≠ .swap) :
      Recognized calls edit positions edit
  | exchange {i j : Nat} {a b : Call} (hij : i < j) (hi : calls[i]? = some a)
      (hj : calls[j]? = some b) (h : a.resource ≠ b.resource) : Recognized calls .swap [i, j] .swap
  | alike {i j : Nat} {a b : Call} (hij : i < j) (hi : calls[i]? = some a)
      (hj : calls[j]? = some b) (h : a.resource = b.resource) :
      Recognized calls .swap [i, j] .modify

/-! ## What the numbers and resources of the calls tell -/

section Classes

variable {front middle back : List Call} {old new a b : Call}

theorem classify_added : classify (front ++ back) (front ++ new :: back) = .ok .add := by
  unfold classify
  dsimp only
  rw [if_neg (by simp), if_pos (by simp; omega)]

theorem classify_deleted : classify (front ++ old :: back) (front ++ back) = .ok .delete := by
  unfold classify
  dsimp only
  rw [if_neg (by simp), if_neg (by simp; omega), if_pos (by simp; omega)]

theorem classify_of_resources {previous current : List Call}
    (h : previous.map Call.resource = current.map Call.resource) :
    classify previous current = .ok .modify := by
  have hlength := congrArg List.length h
  rw [List.length_map, List.length_map] at hlength
  unfold classify
  dsimp only
  rw [if_pos hlength.symm, if_pos h]

theorem classify_replaced (fresh : ∀ c ∈ front ++ old :: back, c.resource ≠ new.resource) :
    classify (front ++ old :: back) (front ++ new :: back) = .ok .replace := by
  have hne : (front ++ old :: back).map Call.resource ≠
      (front ++ new :: back).map Call.resource := by
    intro heq
    simp at heq
    exact fresh old (by simp) heq
  have hperm : ¬ ((front ++ old :: back).map Call.resource).Perm
      ((front ++ new :: back).map Call.resource) := by
    intro perm
    obtain ⟨c, hc, heq⟩ := List.mem_map.1
      (perm.mem_iff.2 (List.mem_map_of_mem (a := new) (by simp)))
    exact fresh c hc heq
  unfold classify
  dsimp only
  rw [if_pos (by simp), if_neg hne, if_neg]
  rw [Bool.and_eq_true, List.isPerm_iff]
  exact fun hand => hperm hand.2

theorem exchanged_perm :
    (front ++ a :: (middle ++ b :: back)).Perm (front ++ b :: (middle ++ a :: back)) := by
  refine List.Perm.append_left front ?_
  have together : (a :: (middle ++ b :: back)).Perm (a :: b :: (middle ++ back)) :=
    List.perm_middle.cons a
  have apart : (a :: (middle ++ back)).Perm (middle ++ a :: back) := List.perm_middle.symm
  exact together.trans ((List.Perm.swap b a _).trans (apart.cons b))

theorem classify_exchanged (h : a.resource ≠ b.resource) :
    classify (front ++ a :: (middle ++ b :: back)) (front ++ b :: (middle ++ a :: back)) =
      .ok .swap := by
  have hne : (front ++ a :: (middle ++ b :: back)).map Call.resource ≠
      (front ++ b :: (middle ++ a :: back)).map Call.resource := by
    intro heq
    simp [h] at heq
  unfold classify
  dsimp only
  rw [if_pos (by simp), if_neg hne, if_pos]
  rw [Bool.and_eq_true, List.isPerm_iff]
  exact ⟨by simp; omega, exchanged_perm.map Call.resource⟩

theorem classify_congr {previous current current' : List Call}
    (h : current.map Call.resource = current'.map Call.resource) :
    classify previous current = classify previous current' := by
  have hlength := congrArg List.length h
  rw [List.length_map, List.length_map] at hlength
  unfold classify
  dsimp only
  rw [hlength, h]

end Classes

/-! ## Edits show -/

variable {kind edit : Edit} {positions : List Nat} {previous current : List Call}

/-- An edit of a kind is read off two lists of calls, and they differ where such an edit must
show. -/
structure Shows (kind : Edit) (previous current : List Call) : Prop where
  classify_eq : classify previous current = .ok kind
  replaced : kind = .replace → (mismatches previous current).length = 1
  swapped : kind = .swap → (mismatches previous current).length = 2

theorem map_resource_of_map_identity {current' : List Call}
    (h : current.map identity = current'.map identity) :
    current.map Call.resource = current'.map Call.resource := by
  have fst : ∀ calls : List Call, (calls.map identity).map Prod.fst = calls.map Call.resource :=
    fun calls => List.map_map
  rw [← fst, ← fst, h]

theorem Shows.congr {current' : List Call} (h : Shows kind previous current')
    (hsame : current.map identity = current'.map identity) : Shows kind previous current := by
  have hresources := map_resource_of_map_identity hsame
  exact {
    classify_eq := (classify_congr hresources).trans h.classify_eq
    replaced := fun hkind => mismatches_congr hsame ▸ h.replaced hkind
    swapped := fun hkind => mismatches_congr hsame ▸ h.swapped hkind }

/-- **Edits are recognized.** -/
theorem Edited.recognized (h : Edited edit positions previous current) :
    ∃ kind, Recognized previous edit positions kind ∧ Shows kind previous current := by
  cases h with
  | add => exact ⟨.add, .itself (by decide), classify_added, nofun, nofun⟩
  | delete => exact ⟨.delete, .itself (by decide), classify_deleted, nofun, nofun⟩
  | modify resource =>
    exact ⟨.modify, .itself (by decide), classify_of_resources (by simp [resource]), nofun, nofun⟩
  | @replace front back old new fresh =>
    refine ⟨.replace, .itself (by decide), classify_replaced fresh, fun _ => ?_, nofun⟩
    rw [mismatches_replaced (sameCall_of_resource_ne (fresh old (by simp)))]
    rfl
  | @swap front middle back a b =>
    have first : (front ++ a :: (middle ++ b :: back))[front.length]? = some a := by simp
    have second : (front ++ a :: (middle ++ b :: back))[front.length + 1 + middle.length]? =
        some b := by
      simp [Nat.add_assoc, Nat.add_comm 1]
    have places : front.length < front.length + 1 + middle.length := by omega
    by_cases hresource : a.resource = b.resource
    · refine ⟨.modify, .alike places first second hresource, classify_of_resources ?_, nofun, nofun⟩
      simp [hresource]
    · refine ⟨.swap, .exchange places first second hresource, classify_exchanged hresource, nofun,
        ?_⟩
      intro _
      rw [mismatches_exchanged hresource]
      rfl

/-- An edit still shows when changes come on top of it that leave resources as they are, and the
identities of the calls that were there before. -/
theorem Edited.after_map {f : Call → Call} (h : Edited edit positions previous current)
    (hresource : ∀ c, (f c).resource = c.resource)
    (hkept : ∀ c ∈ previous, identity (f c) = identity c) :
    ∃ current', Edited edit positions previous current' ∧
      (current.map f).map identity = current'.map identity := by
  have kept : ∀ calls : List Call, calls ⊆ previous →
      (calls.map f).map identity = calls.map identity := by
    intro calls hcalls
    rw [List.map_map]
    exact List.map_congr_left fun c hc => hkept c (hcalls hc)
  cases h with
  | @add front back added =>
    refine ⟨front ++ f added :: back, .add, ?_⟩
    have hfront := kept front (by simp)
    have hback := kept back (by simp)
    simp [hfront, hback]
  | @delete front back deleted => exact ⟨front ++ back, .delete, kept _ (by simp)⟩
  | @modify front back old new resource =>
    refine ⟨front ++ f new :: back, .modify ((hresource new).trans resource), ?_⟩
    have hfront := kept front (by simp)
    have hback := kept back (by simp)
    simp [hfront, hback]
  | @replace front back old new fresh =>
    refine ⟨front ++ f new :: back, .replace ((hresource new).symm ▸ fresh), ?_⟩
    have hfront := kept front (by simp)
    have hback := kept back (by simp)
    simp [hfront, hback]
  | @swap front middle back a b =>
    exact ⟨_, .swap, kept _ exchanged_perm.symm.subset⟩

/-! ## Learning by kind -/

/-- What is learned from an edit of a kind. -/
def learnEdit (kind : Edit) (previous current : Evaluated) (verdict : Verdict) (k : Knowledge) :
    Except Error Knowledge :=
  match kind with
  | .add => .ok (afterAdd previous current verdict k)
  | .delete => .ok (afterDelete previous current verdict k)
  | .modify => .ok (afterModify previous current verdict k)
  | .replace => afterReplace previous current verdict k
  | .swap => afterSwap previous current verdict k

theorem learnFrom_eq {k : Knowledge} {previous current : Evaluated} {verdict : Verdict} :
    k.learnFrom previous current verdict =
      (classify previous.calls current.calls).bind fun kind =>
        (learnEdit kind previous current verdict k).map (kind, ·) := by
  unfold Knowledge.learnFrom
  cases classify previous.calls current.calls with
  | error e => rfl
  | ok kind =>
    cases kind with
    | add | delete | modify => rfl
    | replace =>
      show (do let learned ← afterReplace previous current verdict k; pure (Edit.replace, learned))
        = (afterReplace previous current verdict k).map (Edit.replace, ·)
      cases afterReplace previous current verdict k <;> rfl
    | swap =>
      show (do let learned ← afterSwap previous current verdict k; pure (Edit.swap, learned))
        = (afterSwap previous current verdict k).map (Edit.swap, ·)
      cases afterSwap previous current verdict k <;> rfl

/-- An edit teaches something exactly when its kind is made out and its place is. -/
theorem learnFrom_eq_ok_iff {k learned : Knowledge} {previous current : Evaluated}
    {verdict : Verdict} :
    k.learnFrom previous current verdict = .ok (kind, learned) ↔
      classify previous.calls current.calls = .ok kind ∧
        learnEdit kind previous current verdict k = .ok learned := by
  rw [learnFrom_eq]
  cases hkind : classify previous.calls current.calls with
  | error e => simp [Except.bind]
  | ok edit =>
    show (learnEdit edit previous current verdict k).map (edit, ·) = .ok (kind, learned) ↔ _
    by_cases hedit : edit = kind
    · subst hedit
      cases learnEdit edit previous current verdict k <;> simp [Except.map]
    · cases learnEdit edit previous current verdict k <;> simp [Except.map, hedit]

/-- An edit that shows teaches something. -/
theorem exists_learnFrom {k : Knowledge} {previous current : Evaluated} {verdict : Verdict}
    (h : Shows kind previous.calls current.calls) :
    ∃ learned, k.learnFrom previous current verdict = .ok (kind, learned) := by
  suffices ∃ learned, learnEdit kind previous current verdict k = .ok learned by
    obtain ⟨learned, hlearned⟩ := this
    exact ⟨learned, learnFrom_eq_ok_iff.2 ⟨h.classify_eq, hlearned⟩⟩
  cases kind with
  | add | delete | modify => exact ⟨_, rfl⟩
  | replace =>
    obtain ⟨place, hplace⟩ := List.length_eq_one_iff.1 (h.replaced rfl)
    unfold learnEdit afterReplace
    dsimp only
    rw [hplace]
    dsimp only
    split <;> exact ⟨_, rfl⟩
  | swap =>
    obtain ⟨p, q, hplaces⟩ := List.length_eq_two.1 (h.swapped rfl)
    unfold learnEdit afterSwap
    dsimp only
    rw [hplaces]
    dsimp only
    split <;> exact ⟨_, rfl⟩

end Inference

end RestScenario
