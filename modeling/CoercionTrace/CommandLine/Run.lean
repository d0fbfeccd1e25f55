import CoercionTrace.CommandLine.Arguments
import CoercionTrace.Instrument.Program
import CoercionTrace.Settings.Loading

/-!
# Runs

A run of the command line: settings, then options, then input, then instrumentation, and only then
anything is printed or written.
-/

namespace CoercionTrace

inductive Failure
  | settings (e : SettingsError)
  | unreadable (path : String) (cause : FileError)
  | instrument (halt : Halt)
  | unwritable (path : String) (cause : FileError)

/-- A line on what failed, and a paragraph on why if that has a cause of its own. -/
def Failure.message : Failure → String
  | .settings e => "Error: " ++ e.message ++ "\n"
  | .unreadable path cause =>
    "Error: cannot read " ++ path ++ "\n\nCaused by:\n    " ++ cause.message ++ "\n"
  | .instrument (.error e) => "Error: " ++ e.message ++ "\n"
  -- The run crashes, and what is printed then is not the program's.
  | .instrument (.insideCharacter _) => ""
  | .unwritable path cause =>
    "Error: cannot write " ++ path ++ "\n\nCaused by:\n    " ++ cause.message ++ "\n"

def Failure.exitCode : Failure → Nat
  | .instrument (.insideCharacter _) => 101
  | _ => 1

inductive Outcome
  | misused
  | printed (text : String)
  | failed (warnings : List Diagnostic) (failure : Failure)
  /-- The printed text is empty when the code went to a file. -/
  | done (warnings : List Diagnostic) (stdout : String)

namespace Outcome

def exitCode : Outcome → Nat
  | misused => 2
  | printed _ => 0
  | failed _ failure => failure.exitCode
  | done _ _ => 0

def warnings : Outcome → List Diagnostic
  | failed ws _ => ws
  | done ws _ => ws
  | _ => []

def stdout : Outcome → String
  | printed text => text
  | done _ text => text
  | _ => ""

def failure? : Outcome → Option Failure
  | failed _ f => some f
  | _ => none

/-- A diagnostic as it is printed. The code that it quotes may hold line feeds. -/
def warningText (d : Diagnostic) : String := "warning: " ++ d.message ++ "\n"

def stderr (o : Outcome) : String :=
  String.join (o.warnings.map warningText) ++ (o.failure?.map Failure.message).getD ""

end Outcome

def versionText : String := "jsane 0.1.0\n"

def helpText : String :=
  "Instrument JavaScript sources with JSane runtime checks\n\n" ++
  "Usage: jsane [OPTIONS] <FILE>\n\n" ++
  "Arguments:\n" ++
  "  <FILE>  JavaScript file to instrument\n\n" ++
  "Options:\n" ++
  "  -o, --output <FILE>     Write the instrumented source here instead of stdout\n" ++
  "      --hook-name <NAME>  Variable holding the runtime hook object\n" ++
  "      --linkage <MODE>    How the output obtains the runtime " ++
    "[possible values: embed, require, none]\n" ++
  "      --module <NAME>     Module name used with require linkage\n" ++
  "      --runtime <FILE>    Runtime library source embedded with embed linkage\n" ++
  "      --config <FILE>     JSON configuration file\n" ++
  "      --debug             Enable debug logging\n" ++
  "  -h, --help              Print help\n" ++
  "  -V, --version           Print version\n"

namespace Request

/-- Settings with the given options on top, each replacing its own setting only. -/
def overlay (r : Request) (s : Settings) : Settings :=
  { s with
    instrument := { s.instrument with
      hookName := r.hookName.getD s.instrument.hookName
      linkage := r.linkage.getD s.instrument.linkage
      moduleName := r.moduleName.getD s.instrument.moduleName }
    runtimePath := r.runtime.or s.runtimePath }

variable {m : Type → Type} [Monad m]

def settings (r : Request) (files : FileAccess m) : m (Except SettingsError Settings) := do
  match r.config with
  | none => return .ok (r.overlay {})
  | some path => return (← Settings.load files path).map r.overlay

def options (r : Request) (files : FileAccess m) :
    m (Except SettingsError InstrumentOptions) := do
  match ← r.settings files with
  | .ok s => s.resolve files
  | .error e => return .error e

def deliver (r : Request) (files : FileAccess m) (result : Instrumented) : m Outcome := do
  match r.output with
  | none => return .done result.diagnostics result.code
  | some path =>
    match ← files.write path result.code with
    | .ok () => return .done result.diagnostics ""
    | .error e => return .failed result.diagnostics (.unwritable path e)

def carryOut (r : Request) (input : String) (files : FileAccess m)
    (grammar : String → String → m Concrete) : m Outcome := do
  match ← r.options files with
  | .error e => return .failed [] (.settings e)
  | .ok options =>
    match ← files.read input with
    | .error e => return .failed [] (.unreadable input e)
    | .ok text =>
      match instrument input text.toList (← grammar input text) options with
      | .error e => return .failed [] (.instrument e)
      | .ok result => r.deliver files result

end Request

def Arguments.perform {m : Type → Type} [Monad m] (files : FileAccess m)
    (grammar : String → String → m Concrete) : Arguments → m Outcome
  | .misuse => return .misused
  | .help => return .printed helpText
  | .version => return .printed versionText
  | .run input request => request.carryOut input files grammar

end CoercionTrace
