import RestScenario.Error

/-!
# Settings

What an engine is told about sizes, chances and the use of a database. Settings are accepted when
scenarios may hold an action and every chance lies in the unit interval.
-/

namespace RestScenario

/-- The settings of an engine. -/
structure Settings where
  /-- The seed of the random words, 64 bits. -/
  seed : Nat
  /-- The largest number of actions in a scenario. -/
  maxTestSize : Nat
  /-- The chance that an added call follows a recorded dependency. -/
  dependencyHeuristics : Float
  /-- A table with fewer rows gets a fresh one. -/
  minRowsOfTable : Nat
  /-- The chance that an existing row is selected where a table has enough. -/
  selectFromDb : Float
  /-- The chance of a second `PATCH` at the end of a creating template. -/
  extraPatch : Float
  /-- The chance that an added call follows a dependency of a resource on itself. -/
  selfRelation : Float
  /-- Whether path elements are split into words where they match no table. -/
  tokenParser : Bool
  /-- Whether calls are seeded with rows. -/
  involveDb : Bool
  /-- The least similarity of names that count as related. -/
  similarityThreshold : Float
deriving DecidableEq

namespace Settings

/-- The settings used unless others are given. -/
def standard : Settings where
  seed := 42
  maxTestSize := 10
  dependencyHeuristics := 0.5
  minRowsOfTable := 10
  selectFromDb := 0.5
  extraPatch := 0.1
  selfRelation := 0.2
  tokenParser := true
  involveDb := true
  similarityThreshold := 0.6

/-- Short scenarios without a database and without heuristics. -/
def minimal : Settings :=
  { standard with maxTestSize := 4, dependencyHeuristics := 0.0, extraPatch := 0.0,
                  involveDb := false }

/-- Long scenarios that follow dependencies often. -/
def thorough : Settings :=
  { standard with maxTestSize := 20, dependencyHeuristics := 0.8, minRowsOfTable := 20 }

/-- The chances and the threshold with the names under which they are refused. -/
def unitValues (s : Settings) : List (String × Float) :=
  [("prob_of_dependency_heuristics", s.dependencyHeuristics),
    ("prob_of_select_from_db", s.selectFromDb),
    ("prob_extra_patch", s.extraPatch),
    ("prob_self_relation", s.selfRelation),
    ("similarity_threshold", s.similarityThreshold)]

/-- Refuses settings that no engine can run with. -/
def validate (s : Settings) : Except Error Unit :=
  if s.maxTestSize = 0 then .error (.invalidSettings .noTestSize)
  else
    match s.unitValues.find? fun v => !Number.isUnit v.2 with
    | some (name, value) => .error (.invalidSettings (.outsideUnit name value))
    | none => .ok ()

end Settings

end RestScenario
