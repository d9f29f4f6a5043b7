import RestScenario.Proofs.Computation
import RestScenario.Proofs.Learning.Edited

/-!
# Learning in place

`Knowledge.learnFrom` gives new knowledge beside the old. Here the same is learned in place: what is
known is the state of a computation, each credit changes it at once, and a failure leaves it as it is
at that moment.

Whether a replacement or an exchange can be placed shows only when it is handled. It shows before the
first credit, so nothing is half learned: in place one comes to what `learnFrom` gives, and a failure
leaves what was known before (`run_learn`).
-/

namespace RestScenario

/-- Steps that change what is known, and may fail in between. -/
abbrev Learning := ExceptT Error (StateM Knowledge)

namespace Learning

open Inference

/-- Gives one credit after the other, to calls or for them. -/
def credits {α : Type} (step : Knowledge → α → Knowledge) (xs : List α) : Learning Unit :=
  xs.forM fun x => modify (step · x)

/-- Gives credit to a call that was moved past others. -/
def moved (changed : Bool) (call : Call) (passed : List Call) : Learning Unit :=
  if changed then
    let probability := 1.0 / Float.ofNat passed.length
    credits (fun k other => k.updateDependency call.resource (.singleton other.resource)
      Edit.swap.name probability) passed
  else credits (fun k other => k.recordNonDependency call.resource other.resource) passed

/-! ## By kind of edit -/

section Kinds

variable (previous current : Evaluated) (verdict : Verdict)

/-- Learns in place from a call that was added. -/
def added : Learning Unit :=
  let location := firstMismatch previous.calls current.calls
  match current.calls[location]? with
  | none => pure ()
  | some added =>
    credits (creditOne previous current added.length added verdict Edit.add.name)
      (between (location + 1) current.calls.length)

/-- Learns in place from a call that was deleted. -/
def deleted : Learning Unit :=
  let location := firstMismatch previous.calls current.calls
  match previous.calls[location]? with
  | none => pure ()
  | some deleted =>
    credits (creditOne previous current (-(deleted.length : Int)) deleted verdict Edit.delete.name)
      (between location current.calls.length)

/-- Learns in place from a call that was sampled anew. -/
def modified : Learning Unit :=
  match (mismatches previous.calls current.calls).head? with
  | none => pure ()
  | some location =>
    match current.calls[location]?, previous.calls[location]? with
    | some new, some old =>
      credits (creditOne previous current ((new.length : Int) - old.length) new verdict
        Edit.modify.name) (between (location + 1) current.calls.length)
    | _, _ => pure ()

/-- Learns in place from a call that was replaced. -/
def replaced : Learning Unit :=
  match mismatches previous.calls current.calls with
  | [location] =>
    match current.calls[location]?, previous.calls[location]? with
    | some new, some old =>
      credits (creditPair previous current ((new.length : Int) - old.length) new old verdict
        Edit.replace.name) (between (location + 1) current.calls.length)
    | _, _ => pure ()
  | changed => throw (.ambiguousEdit .replace changed.length)

/-- Learns in place from two calls that were exchanged. -/
def swapped : Learning Unit :=
  match mismatches previous.calls current.calls with
  | [p, q] =>
    match current.calls[p]?, current.calls[q]? with
    | some front, some back => do
      let judged := verdict ≠ .equal
      moved (judged && callChanged previous q current p) front
        (callsBetween current.calls (p + 1) (q + 1))
      moved (judged && callChanged previous p current q) back (callsBetween current.calls p q)
      credits (creditPair previous current ((front.length : Int) - back.length) front back verdict
        Edit.swap.name) (between (p + 1) q)
    | _, _ => pure ()
  | changed => throw (.ambiguousEdit .swap changed.length)

/-- Learns in place from an edit of a kind. -/
def ofKind : Edit → Learning Unit
  | .add => added previous current verdict
  | .delete => deleted previous current verdict
  | .modify => modified previous current verdict
  | .replace => replaced previous current verdict
  | .swap => swapped previous current verdict

/-- Learns in place from an edit; gives its kind. -/
def learn : Learning Edit := do
  let kind ← liftM (classify previous.calls current.calls)
  ofKind previous current verdict kind
  return kind

end Kinds

/-! ## What is learned in place -/

/-- The outcome of a computation on `k` that fails, or gives new knowledge: a failure leaves `k`. -/
def outcome {α : Type} (k : Knowledge) : Except Error (α × Knowledge) → Except Error α × Knowledge
  | .ok (a, learned) => (.ok a, learned)
  | .error e => (.error e, k)

variable {previous current : Evaluated} {verdict : Verdict} {k : Knowledge} {α β : Type}

theorem run_credits {step : Knowledge → α → Knowledge} {xs : List α} :
    (credits step xs).run k = (.ok (), xs.foldl step k) := by
  induction xs generalizing k with
  | nil => rfl
  | cons x rest ih => exact ih (k := step k x)

theorem run_moved {changed : Bool} {call : Call} {passed : List Call} :
    (moved changed call passed).run k = (.ok (), creditMoved changed call passed k) := by
  unfold moved creditMoved
  split <;> exact run_credits

/-- After a step one goes on with what it learned. -/
theorem run_bind_of_ok {x : Learning α} {f : α → Learning β} {a : α} {learned : Knowledge}
    (hx : x.run k = (.ok a, learned)) : (x >>= f).run k = (f a).run learned := by
  have run : @Eq (Except Error β × Knowledge) ((x >>= f).run k)
      ((ExceptT.bindCont f (x.run k).1).run (x.run k).2) := rfl
  rw [run, hx]
  rfl

/-- A failure ends a computation. -/
theorem run_bind_of_error {x : Learning α} {f : α → Learning β} {e : Error} {left : Knowledge}
    (hx : x.run k = (.error e, left)) : (x >>= f).run k = (.error e, left) := by
  have run : @Eq (Except Error β × Knowledge) ((x >>= f).run k)
      ((ExceptT.bindCont f (x.run k).1).run (x.run k).2) := rfl
  rw [run, hx]
  rfl

/-- A replacement that cannot be placed is refused before the first credit. -/
theorem run_replaced : (replaced previous current verdict).run k =
    outcome k ((afterReplace previous current verdict k).map ((), ·)) := by
  unfold replaced afterReplace
  rcases mismatches previous.calls current.calls with _ | ⟨location, _ | ⟨other, rest⟩⟩
  · rfl
  · dsimp only
    cases current.calls[location]? with
    | none => rfl
    | some new =>
      cases previous.calls[location]? with
      | none => rfl
      | some old => exact run_credits
  · rfl

/-- An exchange that cannot be placed is refused before the first credit. -/
theorem run_swapped : (swapped previous current verdict).run k =
    outcome k ((afterSwap previous current verdict k).map ((), ·)) := by
  unfold swapped afterSwap
  rcases mismatches previous.calls current.calls with _ | ⟨p, _ | ⟨q, _ | ⟨other, rest⟩⟩⟩
  · rfl
  · rfl
  · dsimp only
    cases current.calls[p]? with
    | none => rfl
    | some front =>
      cases current.calls[q]? with
      | none => rfl
      | some back =>
        dsimp only
        rw [run_bind_of_ok run_moved, run_bind_of_ok run_moved]
        exact run_credits
  · rfl

theorem run_ofKind {kind : Edit} : (ofKind previous current verdict kind).run k =
    outcome k ((learnEdit kind previous current verdict k).map ((), ·)) := by
  cases kind with
  | add =>
    show (added previous current verdict).run k = (.ok (), afterAdd previous current verdict k)
    unfold added afterAdd
    dsimp only
    cases current.calls[firstMismatch previous.calls current.calls]? with
    | none => rfl
    | some added => exact run_credits
  | delete =>
    show (deleted previous current verdict).run k =
      (.ok (), afterDelete previous current verdict k)
    unfold deleted afterDelete
    dsimp only
    cases previous.calls[firstMismatch previous.calls current.calls]? with
    | none => rfl
    | some deleted => exact run_credits
  | modify =>
    show (modified previous current verdict).run k =
      (.ok (), afterModify previous current verdict k)
    unfold modified afterModify
    cases (mismatches previous.calls current.calls).head? with
    | none => rfl
    | some location =>
      dsimp only
      cases current.calls[location]? with
      | none => rfl
      | some new =>
        cases previous.calls[location]? with
        | none => rfl
        | some old => exact run_credits
  | replace => exact run_replaced
  | swap => exact run_swapped

/-- **Learned in place is what is learned.** -/
theorem run_learn : (learn previous current verdict).run k =
    outcome k (k.learnFrom previous current verdict) := by
  rw [learnFrom_eq]
  unfold learn
  cases classify previous.calls current.calls with
  | error e => rfl
  | ok kind =>
    have hedit : (ofKind previous current verdict kind).run k = _ := run_ofKind
    refine (run_bind_of_ok (x := liftM (Except.ok kind)) rfl).trans ?_
    show _ = outcome k ((learnEdit kind previous current verdict k).map (kind, ·))
    cases hlearned : learnEdit kind previous current verdict k with
    | error e =>
      rw [hlearned] at hedit
      exact run_bind_of_error hedit
    | ok learned =>
      rw [hlearned] at hedit
      exact run_bind_of_ok hedit

end Learning

end RestScenario
