import RestScenario.Engine.Settings
import RestScenario.Json.Reader
import RestScenario.Json.Shape

/-!
# Settings documents

Settings as JSON documents. Every field may be left out and then has its standard value; whole
numbers are read without sign.
-/

namespace RestScenario.Settings

open Json

/-- The names of the fields in documents. -/
def fieldNames : List String :=
  ["seed", "max_test_size", "prob_of_dependency_heuristics", "min_row_of_table",
    "prob_of_select_from_db", "prob_extra_patch", "prob_self_relation", "apply_token_parser",
    "involve_db", "similarity_threshold"]

/-- The settings of a document. -/
def ofDocument? (d : Document) : Option Settings := do
  let fields ← d.asRecord? fieldNames
  let whole := fun name absent => fields.optional name absent Document.asWord?
  let number := fun name absent => fields.optional name absent Document.asFloat?
  let flag := fun name absent => fields.optional name absent Document.asBool?
  return {
    seed := ← whole "seed" standard.seed
    maxTestSize := ← whole "max_test_size" standard.maxTestSize
    dependencyHeuristics := ← number "prob_of_dependency_heuristics" standard.dependencyHeuristics
    minRowsOfTable := ← whole "min_row_of_table" standard.minRowsOfTable
    selectFromDb := ← number "prob_of_select_from_db" standard.selectFromDb
    extraPatch := ← number "prob_extra_patch" standard.extraPatch
    selfRelation := ← number "prob_self_relation" standard.selfRelation
    tokenParser := ← flag "apply_token_parser" standard.tokenParser
    involveDb := ← flag "involve_db" standard.involveDb
    similarityThreshold := ← number "similarity_threshold" standard.similarityThreshold }

/-- The document of settings. -/
def toDocument (s : Settings) : Document :=
  ofFields [("seed", ofNat s.seed), ("max_test_size", ofNat s.maxTestSize),
    ("prob_of_dependency_heuristics", ofFloat s.dependencyHeuristics),
    ("min_row_of_table", ofNat s.minRowsOfTable),
    ("prob_of_select_from_db", ofFloat s.selectFromDb),
    ("prob_extra_patch", ofFloat s.extraPatch), ("prob_self_relation", ofFloat s.selfRelation),
    ("apply_token_parser", .bool s.tokenParser), ("involve_db", .bool s.involveDb),
    ("similarity_threshold", ofFloat s.similarityThreshold)]

/-- The settings that a text spells. -/
def ofText (s : String) : Except Error Settings :=
  match (read? s).bind ofDocument? with
  | some settings => .ok settings
  | none => .error (.malformedDocument "settings document")

end RestScenario.Settings
