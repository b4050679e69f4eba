import FieldQuery.Command.Running

/-!
# The program

Reads the files that a call may ask about, runs the call, and prints what it gives.
-/

namespace FieldQuery

/-- How the program is called. -/
def usage : String :=
  "Usage: sift [--config PATH] [-v]... parse QUERY [--tokens [--json] | --canonical]\n"
    ++ "       sift [--config PATH] [-v]... compile QUERY [--json] [--pass-through] [--no-merge]\n"
    ++ "       sift [--config PATH] [-v]... config [--files]\n"

/-- The file error for a failure of the system. -/
def FileError.ofIO : IO.Error → FileError
  | .noFileOrDirectory _ _ _ => .notFound
  | .inappropriateType _ code _ => if code = 21 then .isDirectory else .notDirectory
  | e => .refused (toString e)

/-- The text of a file. -/
def readText (path : String) : IO (Except FileError String) := do
  match ← (IO.FS.readBinFile path).toBaseIO with
  | .error e => return .error (.ofIO e)
  | .ok bytes =>
      match String.fromUTF8? bytes with
      | none => return .error .notText
      | some text => return .ok text

/-- Whether a path leads to a file; one that cannot be asked about does not. -/
def isFile (path : String) : IO Bool := do
  match ← (IO.FS.realPath path).toBaseIO with
  | .error _ => return false
  | .ok target =>
      match ← target.metadata.toBaseIO with
      | .error _ => return false
      | .ok metadata => return metadata.type == .file

/-- What there is to know about each of several paths; others lead nowhere. -/
def askAbout (paths : List String) : IO Files := do
  let answers ← paths.mapM fun path => return (path, ← isFile path, ← readText path)
  return {
    hasFile := fun path => ((answers.lookup path).map Prod.fst).getD false
    text := fun path => ((answers.lookup path).map Prod.snd).getD (.error .notFound) }

/-- What is said of a text that is no configuration. -/
def remarks : Remarks :=
  fun text =>
    match Toml.read? text with
    | none => some "invalid TOML"
    | some _ => some "a setting has a value of the wrong kind"

/-- Runs a call and gives its exit status. -/
def runInvocation (invocation : Invocation) : IO UInt32 := do
  let directory := toString (← IO.currentDir)
  let home := (← IO.getEnv "HOME").getD ""
  let files ← askAbout (invocation.candidates home directory)
  let outcome := invocation.run files home directory remarks
  let verbosity := Verbosity.choose invocation.verbosity (← IO.getEnv "SIFT_LOG")
  IO.print outcome.output
  IO.eprint (outcome.errorOutput verbosity)
  return outcome.exitStatus.toUInt32

end FieldQuery

/-- The program; a misuse of its arguments has an exit status of its own. -/
def main (args : List String) : IO UInt32 := do
  match FieldQuery.Invocation.ofArguments? args with
  | some invocation => FieldQuery.runInvocation invocation
  | none =>
      IO.eprint FieldQuery.usage
      return 2
