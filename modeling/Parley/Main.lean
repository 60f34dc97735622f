import Parley.CommandLine

/-!
# The program

Reads the settings file that the arguments name, and prints what the command line comes to.
-/

/-- What reading a file comes to. -/
def readSettings (path : String) : IO (Except String String) := do
  try
    return .ok (← IO.FS.readFile path)
  catch
    | .noFileOrDirectory _ _ _ => return .error Parley.CommandLine.notThere
    | e => return .error (toString e)

/-- The program. -/
def main (arguments : List String) : IO UInt32 := do
  let file ← match Parley.CommandLine.fileNamed arguments with
    | some path => readSettings path
    | none => pure (.ok "")
  let r := Parley.CommandLine.execute arguments file
  IO.print r.output
  IO.eprint r.errors
  return r.exitCode.toUInt32
