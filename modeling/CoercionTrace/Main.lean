import CoercionTrace.CommandLine.Run
import CoercionTrace.Document.Reading
import CoercionTrace.Syntax.Rows

/-!
# The program

The command line over real files. The concrete tree of an input is read from the file beside it
whose name ends in `.cst`.
-/

namespace CoercionTrace.Main

def fileError : IO.Error → FileError
  | .noFileOrDirectory .. => .notFound
  | .inappropriateType _ 20 _ => .notDirectory
  | .inappropriateType _ 21 _ => .isDirectory
  | e => .system (toString e)

def attempt {α : Type} (action : IO α) : IO (Except FileError α) := do
  try
    return .ok (← action)
  catch e =>
    return .error (fileError e)

def readText (path : String) : IO (Except FileError String) := do
  match ← attempt (IO.FS.readBinFile path) with
  | .error e => return .error e
  | .ok bytes =>
    match String.fromUTF8? bytes with
    | some text => return .ok text
    | none => return .error (.system "stream did not contain valid UTF-8")

def files : FileAccess IO where
  read := readText
  write path text := attempt (IO.FS.writeFile path text)

def grammar (input _text : String) : IO Concrete := do
  match ← readText (input ++ ".cst") with
  | .error _ => return .unparsed
  | .ok text => return ((Document.read? text).bind Concrete.ofDocument?).getD .unparsed

def report (outcome : Outcome) : IO UInt32 := do
  match outcome with
  | .misused => IO.eprintln "error: the arguments could not be understood; try '--help'"
  | _ =>
    IO.print outcome.stdout
    IO.eprint outcome.stderr
  return UInt32.ofNat outcome.exitCode

end CoercionTrace.Main

def main (arguments : List String) : IO UInt32 := do
  let outcome ← (CoercionTrace.Arguments.read arguments).perform CoercionTrace.Main.files
    CoercionTrace.Main.grammar
  CoercionTrace.Main.report outcome
