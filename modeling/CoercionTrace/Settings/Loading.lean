import CoercionTrace.Files.Access
import CoercionTrace.Settings

/-!
# Loading settings

Settings are read from a file, and the text of the runtime library from the file that they name
when the linkage embeds it.
-/

namespace CoercionTrace

inductive SettingsError
  | unreadable (path : String) (cause : FileError)
  | malformed
  | noRuntimePath
  deriving DecidableEq

def SettingsError.message (e : SettingsError) : String :=
  "Configuration error: " ++ match e with
    | .unreadable path cause => "cannot read " ++ path ++ ": " ++ cause.message
    | .malformed => "not a configuration document"
    | .noRuntimePath => "embed linkage needs runtime_path"

namespace Settings

def parse (text : String) : Except SettingsError Settings :=
  match read? text with
  | some s => .ok s
  | none => .error .malformed

variable {m : Type → Type} [Monad m]

def load (files : FileAccess m) (path : String) : m (Except SettingsError Settings) := do
  match ← files.read path with
  | .ok text => return parse text
  | .error e => return .error (.unreadable path e)

/-- The options of instrumentation, with the text of the runtime library if it is embedded. -/
def resolve (files : FileAccess m) (s : Settings) :
    m (Except SettingsError InstrumentOptions) := do
  let o := s.instrument
  if o.linkage ≠ .embed || o.runtimeSource.isSome then return .ok o
  match s.runtimePath with
  | none => return .error .noRuntimePath
  | some path =>
    match ← files.read path with
    | .ok text => return .ok { o with runtimeSource := some text }
    | .error e => return .error (.unreadable path e)

end Settings

end CoercionTrace
