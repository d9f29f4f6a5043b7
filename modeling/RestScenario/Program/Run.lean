import RestScenario.Format.Catalogue
import RestScenario.Format.Database
import RestScenario.Format.Settings
import RestScenario.Program.Arguments
import RestScenario.Program.Report

/-!
# Runs of the program

A run takes the words of a command line and the texts of files to lines for the output, lines for
the notices and an exit code. Files are read in a fixed order, catalogue, settings, database, and
the first that cannot be read or is refused ends the run.
-/

namespace RestScenario.Program

/-- The text of each file, or the reason why it cannot be read. -/
abbrev Files := String → Except String String

/-- What a run leaves behind. -/
structure Transcript where
  output : List String
  notices : List String
  exitCode : Nat
deriving DecidableEq

/-- The notice on a command line without a catalogue. -/
def usage : String :=
  "Usage: resdep-runner <catalogue.json> [--schema FILE] [--config FILE] [--rounds N] [--seed N]"

/-- The text of a file. -/
def Files.text (files : Files) (name : String) : Except Error String :=
  match files name with
  | .ok text => .ok text
  | .error reason => .error (.invalidSettings (.unreadable name reason))

/-- Reads an optional file. -/
def Files.optional {α : Type} (files : Files) (read : String → Except Error α) :
    Option String → Except Error (Option α)
  | none => .ok none
  | some name => do
    let text ← files.text name
    return some (← read text)

/-- The engine that the arguments ask for. -/
def start (a : Arguments) (catalogue : String) (files : Files) : Except Error Engine := do
  let catalogue ← Catalogue.ofText (← files.text catalogue)
  let settings := (← files.optional Settings.ofText a.config).getD .standard
  let database ← files.optional Database.ofText a.schema
  let engine ← Engine.ofSettings { settings with seed := a.seed.getD settings.seed }
  engine.load catalogue database

/-- The report on the engine that the arguments ask for. -/
def perform (a : Arguments) (catalogue : String) (files : Files) : Report Unit :=
  match start a catalogue files with
  | .ok engine => report engine a.rounds
  | .error e => ⟨[], .error e⟩

/-- The transcript of a run. -/
def run (words : List String) (files : Files) : Transcript :=
  let a := Arguments.ofWords words
  let ignored := a.ignored.map ("Ignoring unknown argument: " ++ ·)
  match a.catalogue with
  | none => ⟨[], ignored ++ [usage], 2⟩
  | some catalogue =>
    let r := perform a catalogue files
    match r.result with
    | .ok _ => ⟨r.lines, ignored, 0⟩
    | .error e => ⟨r.lines, ignored ++ ["ERROR: " ++ e.message], 1⟩

end RestScenario.Program
