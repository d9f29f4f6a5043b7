import RestScenario.Catalogue

/-!
# Sites and the actions that create them

A site is a path template with the actions offered on it and the keys of its ancestors, nearest
first. What creates a site is a `POST` on it or on an ancestor; of several the nearest counts. A
creation chain lists the creating actions of a site, outermost first: each action that needs a
parent is preceded by the creator of its own path, as far as there is one.
-/

namespace RestScenario

/-- A path template with its actions. -/
structure Site where
  path : PathTemplate
  actions : List Action
  /-- The keys of the ancestors, nearest first. -/
  ancestors : List String
deriving DecidableEq

namespace Site

/-- The verbs of the actions, in their order. -/
def ownVerbs (s : Site) : List Verb := s.actions.map (·.verb)

/-- The first action with a verb. -/
def action? (s : Site) (v : Verb) : Option Action := s.actions.find? (·.verb = v)

/-- Whether there is an action with a verb. -/
def hasAction (s : Site) (v : Verb) : Bool := (s.action? v).isSome

end Site

/-- The sites of an API by key. -/
abbrev Sites := SortedMap String Site

/-- How the resolution of a creation chain ended. -/
inductive ChainStatus where
  | complete
  /-- Nothing creates `unresolved`. -/
  | incomplete (unresolved : String)
deriving DecidableEq

/-- The creating actions of a site, outermost first. -/
structure CreationChain where
  actions : List Action
  status : ChainStatus
deriving DecidableEq

namespace CreationChain

/-- Whether nothing is left unresolved. -/
def isComplete (c : CreationChain) : Bool := c.status = .complete

/-- The number of creating actions. -/
def length (c : CreationChain) : Nat := c.actions.length

end CreationChain

namespace Sites

/-! ## Building -/

/-- Whether the first of two paths with their keys comes before the second: the longer path first,
then by key. -/
def longerFirst (a b : String × PathTemplate) : Bool :=
  b.2.levels < a.2.levels || (a.2.levels = b.2.levels && a.1 ≤ b.1)

/-- The keys of the ancestors of a path among the given ones, nearest first. -/
def ancestorsOf (paths : List (String × PathTemplate)) (p : PathTemplate) : List String :=
  ((paths.filter fun q => q.2.isAncestorOf p).mergeSort longerFirst).map (·.1)

/-- The sites of a catalogue. -/
def ofCatalogue (c : Catalogue) : Sites :=
  let groups := c.groupByPath
  let paths := groups.entries.filterMap fun (key, actions) =>
    actions.head?.map fun a => (key, a.path)
  groups.map fun _ actions =>
    let path := (actions.head?.map (·.path)).getD ⟨[]⟩
    ⟨path, actions, ancestorsOf paths path⟩

/-! ## Creators -/

/-- The sites that may hold a creator of a path: itself and its ancestors. -/
def owners (sites : Sites) (path : PathTemplate) : List Site :=
  match sites.get? path.key with
  | some s => s :: s.ancestors.filterMap sites.get?
  | none => sites.values.filter fun s => s.path.isSameOrAncestorOf path

/-- The creating actions on a path and its ancestors that have the longest path. The action named
`exclude` is passed over. -/
def creatorsFor (sites : Sites) (path : PathTemplate) (exclude : String) : List Action :=
  let posts := ((sites.owners path).filterMap (·.action? .post)).filter fun a => a.name ≠ exclude
  let longest := (posts.map fun a => a.path.levels).foldl max 0
  posts.filter fun a => a.path.levels = longest

/-- Whether a site or an ancestor of it has a creating action. -/
def isCreatable (sites : Sites) (s : Site) : Bool :=
  s.hasAction .post || (s.ancestors.filterMap sites.get?).any fun a => a.hasAction .post

/-! ## Chains -/

/-- Extends a chain outwards from its first action. -/
def extendChain (sites : Sites) (first : Action) (rest : List Action) : CreationChain :=
  if first.path.needsParent then
    match (sites.creatorsFor first.path first.name).head? with
    | some next =>
      if next.path.levels < first.path.levels then extendChain sites next (first :: rest)
      else ⟨first :: rest, .incomplete first.path.key⟩
    | none => ⟨first :: rest, .incomplete first.path.key⟩
  else ⟨first :: rest, .complete⟩
termination_by first.path.levels

/-- The action from which the chain of a site starts: its own `POST`, else the nearest creator. -/
def chainStart? (sites : Sites) (s : Site) : Option Action :=
  (s.action? .post).or (sites.creatorsFor s.path "").head?

/-- The creation chain of a site. -/
def chainOf (sites : Sites) (s : Site) : CreationChain :=
  match sites.chainStart? s with
  | some a => sites.extendChain a []
  | none => if s.path.hasVariables then ⟨[], .incomplete s.path.key⟩ else ⟨[], .complete⟩

end Sites

end RestScenario
