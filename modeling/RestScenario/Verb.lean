import RestScenario.Text.Ascii
import RestScenario.Text.Blank

/-!
# Verbs

The seven verbs of a call in their canonical order, which is also the order of the flags that a
resource keeps per verb. Verbs are read without regard to case or blanks around them.
-/

namespace RestScenario

/-- The verb of a call. -/
inductive Verb where
  | post
  | get
  | put
  | patch
  | delete
  | options
  | head
deriving DecidableEq, Inhabited

namespace Verb

/-- All verbs in canonical order. -/
def all : List Verb := [post, get, put, patch, delete, options, head]

/-- The place in the canonical order. -/
def index : Verb → Nat
  | post => 0
  | get => 1
  | put => 2
  | patch => 3
  | delete => 4
  | options => 5
  | head => 6

/-- The name on the wire. -/
def name : Verb → String
  | post => "POST"
  | get => "GET"
  | put => "PUT"
  | patch => "PATCH"
  | delete => "DELETE"
  | options => "OPTIONS"
  | head => "HEAD"

/-- The verb that a text names, blanks and case aside. -/
def parse? (s : String) : Option Verb := all.find? fun v => Text.sameLetters v.name (Text.trim s)

instance : Ord Verb := ⟨fun a b => compare a.index b.index⟩

theorem index_injective {a b : Verb} (h : a.index = b.index) : a = b := by
  cases a <;> cases b <;> simp_all [index]

instance : Std.TransOrd Verb where
  eq_swap {a b} := Std.OrientedOrd.eq_swap (a := a.index) (b := b.index)
  isLE_trans {a b c} h := Std.TransOrd.isLE_trans (a := a.index) (b := b.index) (c := c.index) h

instance : Std.LawfulEqOrd Verb where
  eq_of_compare h := index_injective (Nat.compare_eq_eq.1 h)

end Verb

end RestScenario
