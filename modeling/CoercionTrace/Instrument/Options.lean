import CoercionTrace.Diagnostic
import CoercionTrace.Text.Blank
import CoercionTrace.Text.Quoted

/-!
# Options

The name of the variable that holds the hook object, and how an instrumented file comes by it.
-/

namespace CoercionTrace

inductive Linkage
  /-- The text of the runtime library stands in the file, guarded so that it loads once. -/
  | embed
  | require
  | preexisting
  deriving DecidableEq, Inhabited

structure InstrumentOptions where
  hookName : String := "__rt"
  linkage : Linkage := .require
  moduleName : String := "jsane"
  runtimeSource : Option String := none
  deriving DecidableEq, Inhabited

def isNameStart (c : Char) : Bool := c.isAlpha || c == '_' || c == '$'

def isHookName : List Char → Bool
  | [] => false
  | c :: rest => isNameStart c && rest.all fun d => isNameStart d || d.isDigit

namespace InstrumentOptions

def validate (o : InstrumentOptions) : Except InstrumentError Unit :=
  if !isHookName o.hookName.toList then .error (.invalidOptions (.hookName o.hookName))
  else match o.linkage with
    | .require =>
      if (Text.trim o.moduleName.toList).isEmpty then .error (.invalidOptions .moduleName)
      else .ok ()
    | .embed =>
      if o.runtimeSource.isNone then .error (.invalidOptions .runtimeSource) else .ok ()
    | .preexisting => .ok ()

def linkageText (o : InstrumentOptions) : String :=
  match o.linkage with
  | .preexisting => ""
  | .require =>
    "var " ++ o.hookName ++ " = require(" ++ Text.Quoted.script o.moduleName ++ ").runtime;"
  | .embed =>
    "var " ++ o.hookName ++ " = (typeof " ++ o.hookName ++ " !== \"undefined\") ? " ++ o.hookName ++
      " : (function (exports) \x7b\n" ++ o.runtimeSource.getD "" ++
      "\n;return exports.runtime || exports; \x7d)(\x7b\x7d);\n"

end InstrumentOptions

end CoercionTrace
