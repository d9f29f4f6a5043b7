import Mathlib.Data.List.Forall2
import RestScenario.Error

/-!
# Computations that may fail and change a state

Drawing, sampling, composing and editing are computations of one shape: they take a state, fail or
give a result, and leave a state in either case. `Gives x s a s'` says that `x` run from `s` gives
`a` and leaves `s'`. A sequence of steps gives a result exactly along a chain of steps that do
(`gives_bind`); later proofs take computations apart, or put them together, along this chain.

What holds of a state from one end of a computation to the other, whatever comes of it, is carried
along by `Triple`, in its plain form by `Ensures`, and where nothing is asked of the state by
`Always`. `Succeeds` says in addition that the computation never fails. With which error it fails is
followed by `Fails`.
-/

namespace RestScenario

variable {σ ε α β : Type}

/-- The computation run from `s` gives `a` and leaves `s'`. -/
def Gives (x : ExceptT ε (StateM σ) α) (s : σ) (a : α) (s' : σ) : Prop :=
  @Eq (Except ε α × σ) (x.run s) (.ok a, s')

@[simp]
theorem gives_pure {a b : α} {s s' : σ} :
    Gives (pure a : ExceptT ε (StateM σ) α) s b s' ↔ a = b ∧ s = s' := by
  show @Eq (Except ε α × σ) (.ok a, s) (.ok b, s') ↔ _
  simp

@[simp]
theorem gives_get {a s s' : σ} :
    Gives (getThe σ : ExceptT ε (StateM σ) σ) s a s' ↔ s = a ∧ s = s' := by
  show @Eq (Except ε σ × σ) (.ok s, s) (.ok a, s') ↔ _
  simp

/-- A sequence of two steps gives a result exactly when both steps do. -/
theorem gives_bind {x : ExceptT ε (StateM σ) α} {f : α → ExceptT ε (StateM σ) β} {s s' : σ}
    {b : β} : Gives (x >>= f) s b s' ↔ ∃ a s₁, Gives x s a s₁ ∧ Gives (f a) s₁ b s' := by
  have run : @Eq (Except ε β × σ) ((x >>= f).run s)
      ((ExceptT.bindCont f (x.run s).1).run (x.run s).2) := rfl
  unfold Gives
  rw [run]
  generalize (x.run s : Except ε α × σ) = r
  rcases r with ⟨_ | a, s₁⟩
  · show @Eq (Except ε β × σ) (.error _, s₁) (.ok b, s') ↔ _
    simp
  · constructor
    · intro h
      exact ⟨a, s₁, rfl, h⟩
    · rintro ⟨a', s₂, ha, h⟩
      obtain ⟨rfl, rfl⟩ : a = a' ∧ s₁ = s₂ := by simpa using ha
      exact h

@[simp]
theorem not_gives_throw {e : ε} {a : α} {s s' : σ} :
    ¬ Gives (throw e : ExceptT ε (StateM σ) α) s a s' := by
  show ¬ @Eq (Except ε α × σ) (.error e, s) (.ok a, s')
  simp

@[simp]
theorem gives_liftExcept_iff {x : Except ε α} {a : α} {s s' : σ} :
    Gives (liftM x : ExceptT ε (StateM σ) α) s a s' ↔ x = .ok a ∧ s = s' := by
  cases x with
  | ok b => exact gives_pure.trans (by simp)
  | error e => exact iff_of_false not_gives_throw (by simp)

theorem gives_liftState_iff {x : StateM σ α} {a : α} {s s' : σ} :
    Gives (liftM x : ExceptT ε (StateM σ) α) s a s' ↔ x.run s = (a, s') := by
  show @Eq (Except ε α × σ) (.ok (x.run s).1, (x.run s).2) (.ok a, s') ↔ @Eq (α × σ) (x.run s) _
  simp [Prod.ext_iff]

/-- A result after a step that may fail comes from a result of the step. -/
theorem bind_eq_ok {x : Except ε α} {f : α → Except ε β} {b : β} :
    x >>= f = .ok b ↔ ∃ a, x = .ok a ∧ f a = .ok b := by
  cases x with
  | error e => simp [bind, Except.bind]
  | ok a => simp [bind, Except.bind]

/-- What is done with the members of a list gives their images one by one. -/
theorem mapM_eq_ok_iff {f : α → Except ε β} {xs : List α} {ys : List β} :
    xs.mapM f = .ok ys ↔ List.Forall₂ (fun x y => f x = .ok y) xs ys := by
  induction xs generalizing ys with
  | nil =>
    rw [List.mapM_nil, List.forall₂_nil_left_iff]
    exact ⟨fun h => (Except.ok.inj h).symm, fun h => congrArg Except.ok h.symm⟩
  | cons x rest ih =>
    rw [List.mapM_cons, bind_eq_ok, List.forall₂_cons_left_iff]
    refine exists_congr fun y => ?_
    constructor
    · rintro ⟨hy, h⟩
      obtain ⟨more, hmore, heq⟩ := bind_eq_ok.1 h
      exact ⟨more, hy, ih.1 hmore, (Except.ok.inj heq).symm⟩
    · rintro ⟨more, hy, hmore, rfl⟩
      exact ⟨hy, bind_eq_ok.2 ⟨more, ih.2 hmore, rfl⟩⟩

/-- What is done with the members of a list, each time with a result that is there, gives all these
results. -/
theorem mapM_eq_ok_filterMap {f : α → Except ε β} {g : α → Option β} {xs : List α}
    (h : ∀ x ∈ xs, ∃ y, f x = .ok y ∧ g x = some y) : xs.mapM f = .ok (xs.filterMap g) := by
  rw [mapM_eq_ok_iff]
  induction xs with
  | nil => exact .nil
  | cons x rest ih =>
    obtain ⟨y, hf, hg⟩ := h x List.mem_cons_self
    rw [List.filterMap_cons_some hg]
    exact .cons hf (ih fun x' hx' => h x' (List.mem_cons_of_mem _ hx'))

/-- A walk whose steps all give a result is a walk of their results. -/
theorem foldlM_eq_ok_foldl {f : β → α → Except ε β} {g : β → α → β} {xs : List α}
    (h : ∀ b, ∀ x ∈ xs, f b x = .ok (g b x)) (b : β) : xs.foldlM f b = .ok (xs.foldl g b) := by
  induction xs generalizing b with
  | nil => rfl
  | cons x rest ih =>
    have hrest : ∀ b, ∀ y ∈ rest, f b y = .ok (g b y) :=
      fun b y hy => h b y (List.mem_cons_of_mem _ hy)
    rw [List.foldlM_cons, bind_eq_ok]
    exact ⟨g b x, h b x List.mem_cons_self, ih hrest (g b x)⟩

theorem eq_ok_of_isSome_toOption {x : Except ε α} (d : α) (h : x.toOption.isSome = true) :
    x = .ok (x.toOption.getD d) := by
  cases x with
  | error e => cases h
  | ok a => rfl

/-- What evaluation finds a computation to give. -/
theorem gives_of_toOption {x : ExceptT ε (StateM σ) α} {s : σ} {a : α}
    (h : (x.run s).1.toOption = some a) : Gives x s a (x.run s).2 := by
  cases hx : (x.run s).1 with
  | error e => simp [hx, Except.toOption] at h
  | ok b =>
    obtain rfl : b = a := by simpa [hx, Except.toOption] using h
    exact Prod.ext hx rfl

/-! ## Computations that give a result -/

theorem gives_liftExcept {x : Except ε α} {a : α} {s : σ} (h : x = .ok a) :
    Gives (liftM x : ExceptT ε (StateM σ) α) s a s := gives_liftExcept_iff.2 ⟨h, rfl⟩

theorem gives_liftState (x : StateM σ α) (s : σ) :
    Gives (liftM x : ExceptT ε (StateM σ) α) s (x.run s).1 (x.run s).2 :=
  gives_liftState_iff.2 rfl

/-- The computation run from `s` gives a result, and the result has a property. -/
def Yields (x : ExceptT ε (StateM σ) α) (s : σ) (P : α → Prop) : Prop :=
  ∃ a s', Gives x s a s' ∧ P a

variable {P : α → Prop} {Q : β → Prop}

theorem yields_pure {a : α} {s : σ} (h : P a) :
    Yields (pure a : ExceptT ε (StateM σ) α) s P := ⟨a, s, gives_pure.2 ⟨rfl, rfl⟩, h⟩

/-- What follows a step that gives a result decides on the result. -/
theorem yields_bind {x : ExceptT ε (StateM σ) α} {f : α → ExceptT ε (StateM σ) β} {s s₁ : σ}
    {a : α} (hx : Gives x s a s₁) (hf : Yields (f a) s₁ Q) : Yields (x >>= f) s Q := by
  obtain ⟨b, s', hb, hQ⟩ := hf
  exact ⟨b, s', gives_bind.2 ⟨a, s₁, hx, hb⟩, hQ⟩

/-! ## Computations that fail -/

/-- The computation run from `s` fails with `e`. -/
def Fails (x : ExceptT ε (StateM σ) α) (s : σ) (e : ε) : Prop :=
  @Eq (Except ε α) (x.run s).1 (.error e)

theorem fails_throw {e e' : ε} {s : σ} :
    Fails (throw e : ExceptT ε (StateM σ) α) s e' ↔ e = e' := by
  show @Eq (Except ε α) (.error e) (.error e') ↔ _
  simp

theorem not_fails_pure {a : α} {s : σ} {e : ε} :
    ¬ Fails (pure a : ExceptT ε (StateM σ) α) s e := by
  show ¬ @Eq (Except ε α) (.ok a) (.error e)
  simp

/-- A sequence of two steps fails in the first one, or in the second one on what the first gives. -/
theorem fails_bind {x : ExceptT ε (StateM σ) α} {f : α → ExceptT ε (StateM σ) β} {s : σ} {e : ε} :
    Fails (x >>= f) s e ↔ Fails x s e ∨ ∃ a s₁, Gives x s a s₁ ∧ Fails (f a) s₁ e := by
  have run : @Eq (Except ε β × σ) ((x >>= f).run s)
      ((ExceptT.bindCont f (x.run s).1).run (x.run s).2) := rfl
  unfold Fails Gives
  rw [run]
  generalize (x.run s : Except ε α × σ) = r
  rcases r with ⟨e' | a, s₁⟩
  · show @Eq (Except ε β) (.error e') (.error e) ↔ _
    simp
  · constructor
    · intro h
      exact .inr ⟨a, s₁, rfl, h⟩
    · rintro (h | ⟨a', s₂, ha, h⟩)
      · contradiction
      · obtain ⟨rfl, rfl⟩ : a = a' ∧ s₁ = s₂ := by simpa using ha
        exact h

/-- Where what follows never fails, the first step decides. -/
theorem fails_bind_left {x : ExceptT ε (StateM σ) α} {f : α → ExceptT ε (StateM σ) β} {s : σ} {e : ε}
    (h : ∀ a s₁, ¬ Fails (f a) s₁ e) : Fails (x >>= f) s e ↔ Fails x s e := by
  rw [fails_bind, or_iff_left]
  rintro ⟨a, s₁, -, hf⟩
  exact h a s₁ hf

/-- A computation either gives a result or fails. -/
theorem exists_gives_iff {x : ExceptT ε (StateM σ) α} {s : σ} :
    (∃ a s', Gives x s a s') ↔ ∀ e, ¬ Fails x s e := by
  unfold Gives Fails
  generalize (x.run s : Except ε α × σ) = r
  rcases r with ⟨e | a, s'⟩
  · simp
  · exact iff_of_true ⟨a, s', rfl⟩ (by simp)

/-! ## States along a computation -/

/-- From a state with `P`, a result `a` is given together with a state of `Q a`, and a failure
leaves a state of `F`. -/
def Triple (P : σ → Prop) (x : ExceptT ε (StateM σ) α) (Q : α → σ → Prop) (F : σ → Prop) : Prop :=
  ∀ s, P s → (∀ a, (x.run s).1 = .ok a → Q a (x.run s).2) ∧
    ∀ e, (x.run s).1 = .error e → F (x.run s).2

/-- States with `I` are left in states with `I`, whatever comes of the computation, and what it
gives has `Q`. -/
def Ensures (I : σ → Prop) (x : ExceptT ε (StateM σ) α) (Q : α → Prop) : Prop :=
  Triple I x (fun a s => I s ∧ Q a) I

variable {S F : σ → Prop} {x : ExceptT ε (StateM σ) α} {f : α → ExceptT ε (StateM σ) β}

theorem triple_pure {a : α} {R : α → σ → Prop} (h : ∀ s, S s → R a s) :
    Triple S (pure a : ExceptT ε (StateM σ) α) R F := by
  intro s hs
  refine ⟨fun b hb => ?_, fun e he => ?_⟩
  · obtain rfl := Except.ok.inj hb
    exact h s hs
  · have he : (Except.ok a : Except ε α) = .error e := he
    cases he

/-- A sequence of two steps is followed step by step. -/
theorem triple_bind {R : α → σ → Prop} {T : β → σ → Prop} (hx : Triple S x R F)
    (hf : ∀ a, Triple (R a) (f a) T F) : Triple S (x >>= f) T F := by
  intro s hs
  obtain ⟨hok, herror⟩ := hx s hs
  have run : @Eq (Except ε β × σ) ((x >>= f).run s)
      ((ExceptT.bindCont f (x.run s).1).run (x.run s).2) := rfl
  rw [run]
  generalize (x.run s : Except ε α × σ) = r at *
  rcases r with ⟨e | a, s₁⟩
  · refine ⟨fun b hb => ?_, fun e' he' => herror e rfl⟩
    contradiction
  · exact hf a s₁ (hok a rfl)

theorem Triple.of_gives {R : α → σ → Prop} {s s' : σ} {a : α} (h : Triple S x R F)
    (hx : Gives x s a s') (hs : S s) : R a s' := by
  obtain ⟨hok, -⟩ := h s hs
  unfold Gives at hx
  rw [hx] at hok
  exact hok a rfl

/-- What holds after every result and after every failure holds whatever comes of the computation. -/
theorem Triple.run {R : α → σ → Prop} {T : σ → Prop} {s : σ} (h : Triple S x R F)
    (hresult : ∀ a s, R a s → T s) (hfailure : ∀ s, F s → T s) (hs : S s) : T (x.run s).2 := by
  obtain ⟨hok, herror⟩ := h s hs
  cases hrun : (x.run s).1 with
  | ok a => exact hresult a _ (hok a hrun)
  | error e => exact hfailure _ (herror e hrun)

variable {I : σ → Prop}

theorem Ensures.run {s : σ} (h : Ensures I x P) (hs : I s) : I (x.run s).2 :=
  Triple.run h (fun _ _ hI => hI.1) (fun _ hI => hI) hs

theorem ensures_pure {a : α} (h : P a) : Ensures I (pure a : ExceptT ε (StateM σ) α) P :=
  triple_pure fun _ hs => ⟨hs, h⟩

theorem ensures_bind (hx : Ensures I x P) (hf : ∀ a, P a → Ensures I (f a) Q) :
    Ensures I (x >>= f) Q :=
  triple_bind hx fun a s hs => hf a hs.2 s hs.1

theorem ensures_map {g : α → β} (hx : Ensures I x P) (hg : ∀ a, P a → Q (g a)) :
    Ensures I (g <$> x) Q := by
  rw [← bind_pure_comp]
  exact ensures_bind hx fun a ha => ensures_pure (hg a ha)

theorem Ensures.imp {R : α → Prop} (h : Ensures I x P) (hP : ∀ a, P a → R a) : Ensures I x R :=
  fun s hs => ⟨fun a ha => ((h s hs).1 a ha).imp_right (hP a), (h s hs).2⟩

theorem ensures_throw {e : ε} : Ensures I (throw e : ExceptT ε (StateM σ) α) P := by
  intro s hs
  refine ⟨fun a ha => ?_, fun _ _ => hs⟩
  have ha : (Except.error e : Except ε α) = .ok a := ha
  cases ha

theorem ensures_get : Ensures I (getThe σ : ExceptT ε (StateM σ) σ) I := by
  intro s hs
  refine ⟨fun a ha => ?_, fun _ _ => hs⟩
  obtain rfl := Except.ok.inj ha
  exact ⟨hs, hs⟩

theorem ensures_liftExcept {x : Except ε α} :
    Ensures I (liftM x : ExceptT ε (StateM σ) α) fun a => x = .ok a := by
  cases x with
  | ok a => exact ensures_pure rfl
  | error e => exact ensures_throw

/-! ## Results from any state -/

/-- What the computation gives has a property, whatever state it is run from. -/
abbrev Always (x : ExceptT ε (StateM σ) α) (P : α → Prop) : Prop := Ensures (fun _ => True) x P

theorem always_any : Always x fun _ => True :=
  fun _ _ => ⟨fun _ _ => ⟨trivial, trivial⟩, fun _ _ => trivial⟩

theorem always_of_gives (h : ∀ s a s', Gives x s a s' → P a) : Always x P :=
  fun s _ => ⟨fun a ha => ⟨trivial, h s a _ (Prod.ext ha rfl)⟩, fun _ _ => trivial⟩

/-- The result of a computation that runs another one on a part of its state. -/
theorem Always.through {τ : Type} {y : ExceptT ε (StateM τ) α} (h : Always x P) (part : τ → σ)
    (hrun : ∀ t, (y.run t).1 = (x.run (part t)).1) : Always y P := by
  intro t _
  refine ⟨fun a ha => ⟨trivial, ?_⟩, fun _ _ => trivial⟩
  rw [hrun] at ha
  exact ((h (part t) trivial).1 a ha).2

theorem Ensures.and_always (h : Ensures I x P) {R : α → Prop} (h' : Always x R) :
    Ensures I x fun a => P a ∧ R a := by
  intro s hs
  refine ⟨fun a ha => ?_, (h s hs).2⟩
  obtain ⟨hI, hP⟩ := (h s hs).1 a ha
  exact ⟨hI, hP, ((h' s trivial).1 a ha).2⟩

theorem Always.of_gives {s s' : σ} {a : α} (h : Always x P) (hx : Gives x s a s') : P a :=
  (Triple.of_gives h hx trivial).2

/-! ## Computations that never fail -/

/-- States with `I` are left in states with `I`, always with a result, and the result has `Q`. -/
def Succeeds (I : σ → Prop) (x : ExceptT ε (StateM σ) α) (Q : α → Prop) : Prop :=
  Triple I x (fun a s => I s ∧ Q a) fun _ => False

/-- Where no failure leaves any state, a result is given. -/
theorem Triple.exists_gives {R : α → σ → Prop} (h : Triple S x R fun _ => False) {s : σ} (hs : S s) :
    ∃ a s', Gives x s a s' ∧ R a s' := by
  obtain ⟨hok, herror⟩ := h s hs
  cases hrun : (x.run s).1 with
  | ok a => exact ⟨a, (x.run s).2, Prod.ext hrun rfl, hok a hrun⟩
  | error e => exact (herror e hrun).elim

theorem Succeeds.not_fails {s : σ} {e : ε} (h : Succeeds I x P) (hs : I s) : ¬ Fails x s e :=
  (h s hs).2 e

theorem succeeds_pure {a : α} (h : P a) : Succeeds I (pure a : ExceptT ε (StateM σ) α) P :=
  triple_pure fun _ hs => ⟨hs, h⟩

theorem succeeds_bind (hx : Succeeds I x P) (hf : ∀ a, P a → Succeeds I (f a) Q) :
    Succeeds I (x >>= f) Q :=
  triple_bind hx fun a s hs => hf a hs.2 s hs.1

theorem succeeds_map {g : α → β} (hx : Succeeds I x P) (hg : ∀ a, P a → Q (g a)) :
    Succeeds I (g <$> x) Q := by
  rw [← bind_pure_comp]
  exact succeeds_bind hx fun a ha => succeeds_pure (hg a ha)

theorem Succeeds.imp {R : α → Prop} (h : Succeeds I x P) (hP : ∀ a, P a → R a) : Succeeds I x R :=
  fun s hs => ⟨fun a ha => ((h s hs).1 a ha).imp_right (hP a), (h s hs).2⟩

/-- What succeeds leaves no failure to tell of. -/
theorem Succeeds.ensures (h : Succeeds I x P) : Ensures I x P :=
  fun s hs => ⟨(h s hs).1, fun e he => ((h s hs).2 e he).elim⟩

theorem succeeds_get : Succeeds I (getThe σ : ExceptT ε (StateM σ) σ) I :=
  fun _ hs => ⟨fun _ ha => Except.ok.inj ha ▸ ⟨hs, hs⟩, fun _ he => nomatch he⟩

theorem succeeds_liftState {y : StateM σ α} :
    Succeeds (fun _ => True) (liftM y : ExceptT ε (StateM σ) α) fun a => ∃ s, (y.run s).1 = a :=
  fun s _ => ⟨fun _ ha => ⟨trivial, s, Except.ok.inj ha⟩, fun _ he => nomatch he⟩

theorem succeeds_liftExcept {y : Except ε α} {a : α} (h : y = .ok a) :
    Succeeds I (liftM y : ExceptT ε (StateM σ) α) (a = ·) := by
  subst h
  exact succeeds_pure rfl

theorem Succeeds.and_always (h : Succeeds I x P) {R : α → Prop} (h' : Always x R) :
    Succeeds I x fun a => P a ∧ R a := by
  intro s hs
  refine ⟨fun a ha => ?_, (h s hs).2⟩
  obtain ⟨hI, hP⟩ := (h s hs).1 a ha
  exact ⟨hI, hP, ((h' s trivial).1 a ha).2⟩

end RestScenario
