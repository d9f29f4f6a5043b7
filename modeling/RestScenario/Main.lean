import RestScenario.Program.Run

/-!
The command line: reads the files that the arguments name, then writes what the run leaves behind.
-/

open RestScenario

/-- The text of a file, or the reason why it cannot be read. -/
def readFile (name : String) : BaseIO (Except String String) := do
  match ← (IO.FS.readFile name).toBaseIO with
  | .ok text => return .ok text
  | .error e => return .error (toString e)

/-- Reads files by name. -/
def readFiles (names : List String) : BaseIO (List (String × Except String String)) :=
  names.mapM fun name => return (name, ← readFile name)

/-- Runs the program. -/
def main (words : List String) : IO UInt32 := do
  let texts ← readFiles (Program.Arguments.ofWords words).files
  let files : Program.Files := fun name => (texts.lookup name).getD (.error "not read")
  let transcript := Program.run words files
  transcript.notices.forM fun line => IO.eprintln line
  transcript.output.forM fun line => IO.println line
  return UInt32.ofNat transcript.exitCode
