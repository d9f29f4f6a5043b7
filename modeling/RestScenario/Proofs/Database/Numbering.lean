import RestScenario.Database.Insertion
import RestScenario.Proofs.Computation

/-!
# Numbers of row actions

Row actions take the numbers of a supply in order, and no number is given back, not even by an
insertion that fails. So what is built is numbered from the number that was free before to below the
one that is free afterwards (`Building.numbers_insertWithReferences`,
`Building.numbers_selectExisting`), and what is built later has other numbers.
-/

namespace RestScenario

/-- The numbers of the row actions increase, from `first` on and below `next`. -/
structure Numbered (first next : Nat) (rows : List RowAction) : Prop where
  le : first ≤ next
  increasing : (rows.map RowAction.id).Pairwise (· < ·)
  within : ∀ id ∈ rows.map RowAction.id, first ≤ id ∧ id < next

namespace Numbered

variable {first first' next next' : Nat} {rows rows' : List RowAction} {a : RowAction}

theorem nil (h : first ≤ next) : Numbered first next [] := ⟨h, .nil, by simp⟩

theorem nodup (h : Numbered first next rows) : (rows.map RowAction.id).Nodup :=
  h.increasing.imp Nat.ne_of_lt

theorem sublist (h : Numbered first next rows)
    (hsub : (rows'.map RowAction.id).Sublist (rows.map RowAction.id)) : Numbered first next rows' :=
  ⟨h.le, h.increasing.sublist hsub, fun id hid => h.within id (hsub.subset hid)⟩

/-- The bounds may be wider. -/
theorem mono (h : Numbered first next rows) (hfirst : first' ≤ first) (hnext : next ≤ next') :
    Numbered first' next' rows := by
  refine ⟨Nat.le_trans (Nat.le_trans hfirst h.le) hnext, h.increasing, fun id hid => ?_⟩
  obtain ⟨hge, hlt⟩ := h.within id hid
  exact ⟨Nat.le_trans hfirst hge, Nat.lt_of_lt_of_le hlt hnext⟩

/-- Rows that are numbered one after another are numbered together. -/
theorem append (h : Numbered first next rows) (h' : Numbered next next' rows') :
    Numbered first next' (rows ++ rows') := by
  refine ⟨Nat.le_trans h.le h'.le, ?_, ?_⟩
  · rw [List.map_append]
    refine List.pairwise_append.2 ⟨h.increasing, h'.increasing, fun id hid other hother => ?_⟩
    exact Nat.lt_of_lt_of_le (h.within id hid).2 (h'.within other hother).1
  · rw [List.map_append]
    refine List.forall_mem_append.2 ⟨?_, ?_⟩
    · exact (h.mono (Nat.le_refl _) h'.le).within
    · exact (h'.mono h.le (Nat.le_refl _)).within

theorem singleton (h : first ≤ a.id) : Numbered first (a.id + 1) [a] :=
  ⟨Nat.le_succ_of_le h, by simp, by simpa using h⟩

end Numbered

namespace Building

variable {α β : Type} {x : Building α} {f : α → Building β} {rows : α → List RowAction}
  {rows' : β → List RowAction} {front : List RowAction} {first : Nat}

/-- What the computation builds is numbered from the next number on. A failure gives no number back. -/
def Numbers (x : Building α) (rows : α → List RowAction) : Prop :=
  ∀ first, Triple (fun s => s.nextId = first) x (fun a s => Numbered first s.nextId (rows a))
    fun s => first ≤ s.nextId

/-- What is built after other rows is numbered after them. -/
theorem Numbers.after (h : Numbers x rows) :
    Triple (fun s => Numbered first s.nextId front) x
      (fun a s => Numbered first s.nextId (front ++ rows a)) fun s => first ≤ s.nextId := by
  intro s hs
  obtain ⟨hok, herror⟩ := h s.nextId s rfl
  exact ⟨fun a ha => hs.append (hok a ha), fun e he => Nat.le_trans hs.le (herror e he)⟩

theorem numbers_pure {a : α} (h : rows a = []) : Numbers (pure a) rows :=
  fun _ => triple_pure fun _ hs => h ▸ .nil (Nat.le_of_eq hs.symm)

theorem numbers_throw {e : Error} : Numbers (throw e) rows := by
  intro first s hs
  refine ⟨fun a ha => ?_, fun _ _ => Nat.le_of_eq hs.symm⟩
  have ha : (Except.error e : Except Error α) = .ok a := ha
  cases ha

/-- Two steps of which the second keeps the rows of the first in front of its own. -/
theorem numbers_bind (hx : Numbers x rows)
    (hf : ∀ a, ∀ first, Triple (fun s => Numbered first s.nextId (rows a)) (f a)
      (fun b s => Numbered first s.nextId (rows' b)) fun s => first ≤ s.nextId) :
    Numbers (x >>= f) rows' :=
  fun first => triple_bind (hx first) fun a => hf a first

theorem numbers_draw {d : Random.Draw α} : Numbers (draw d) fun _ => [] :=
  fun _ _ hs => ⟨fun _ _ => .nil (Nat.le_of_eq hs.symm), fun _ he => nomatch he⟩

/-- A row action that takes the next number is numbered after the rows in front of it. -/
theorem triple_takeId : Triple (fun s => Numbered first s.nextId front) takeId
    (fun id s => ∀ a : RowAction, a.id = id → Numbered first s.nextId (front ++ [a]))
    fun s => first ≤ s.nextId := by
  intro s hs
  refine ⟨fun id hid a ha => ?_, fun _ he => nomatch he⟩
  obtain rfl : max s.nextId 1 = id := Except.ok.inj hid
  have hnext : (takeId.run s).2.nextId = a.id + 1 := congrArg (· + 1) ha.symm
  rw [hnext]
  exact hs.append (.singleton (ha ▸ Nat.le_max_left _ _))

mutual

theorem numbers_ofPlan : (plan : InsertionPlan) → Numbers (ofPlan plan) (·.1)
  | .missing name => by
    unfold ofPlan
    exact numbers_throw
  | .row t targets => by
    unfold ofPlan
    refine numbers_bind (numbers_ofTargets targets) fun built first => ?_
    refine triple_bind numbers_draw.after fun values => triple_bind triple_takeId fun id => ?_
    refine triple_pure fun s hs => ?_
    have hlast := hs ⟨id, t.name, .insert, SortedMap.ofList values, built.2⟩ rfl
    rwa [List.append_nil] at hlast

theorem numbers_ofTargets : (targets : TargetPlans) → Numbers (ofTargets targets) (·.1)
  | .none => by
    unfold ofTargets
    exact numbers_pure rfl
  | .underWay k rest => by
    unfold ofTargets
    exact numbers_bind (numbers_ofTargets rest) fun built first => triple_pure fun s hs => hs
  | .insert k plan rest => by
    unfold ofTargets
    refine numbers_bind (numbers_ofPlan plan) fun built first => ?_
    exact triple_bind (numbers_ofTargets rest).after fun more => triple_pure fun s hs => hs

end

/-- **The rows of an insertion are numbered in order**, those it refers to before it. -/
theorem numbers_insertWithReferences {schema : Schema} {table : String} :
    Numbers (insertWithReferences schema table) id :=
  numbers_bind (numbers_ofPlan _) fun _ _ => triple_pure fun _ hs => hs

theorem numbers_selectExisting {table : String} {row : Row} :
    Numbers (selectExisting table row) ([·]) := by
  intro first
  have taken : Triple (fun s => s.nextId = first) takeId
      (fun id s => ∀ a : RowAction, a.id = id → Numbered first s.nextId ([] ++ [a]))
      fun s => first ≤ s.nextId :=
    fun s hs => triple_takeId s (.nil (Nat.le_of_eq hs.symm))
  exact triple_bind taken fun id => triple_pure fun s hs => hs (.select id table row) rfl

end Building

end RestScenario
