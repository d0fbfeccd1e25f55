import CoercionTrace.Syntax.Kind

/-!
# Errors and diagnostics of instrumentation

An error abandons a file; a diagnostic leaves one construct as it is. `message` gives the wording.
-/

namespace CoercionTrace

inductive Breach
  | updatedTwice (node : Nat) (kind : Kind)
  | resolvedBeforeCollection (name : String)
  | noTraceVariable (name : String)
  | functionWithoutScope (line : Nat)
  | functionWithoutBody
  | memberWithoutObject
  | memberWithoutProperty
  | subscriptWithoutIndex
  deriving DecidableEq

def Breach.message : Breach → String
  | .updatedTwice node kind =>
    "node " ++ toString node ++ " (" ++ kind.label ++ ") rewritten twice"
  | .resolvedBeforeCollection name =>
    "identifier '" ++ name ++ "' resolved before scopes were collected"
  | .noTraceVariable name => "closed-over variable '" ++ name ++ "' has no trace id variable"
  | .functionWithoutScope line => "function at line " ++ toString line ++ " has no scope"
  | .functionWithoutBody => "function without body"
  | .memberWithoutObject => "member expression without object"
  | .memberWithoutProperty => "member expression without property"
  | .subscriptWithoutIndex => "subscript expression without index"

inductive OptionFault
  | hookName (name : String)
  | moduleName
  | runtimeSource
  deriving DecidableEq

def OptionFault.message : OptionFault → String
  | .hookName name => "hook variable name '" ++ name ++ "' is not a JavaScript identifier"
  | .moduleName => "require linkage needs a module name"
  | .runtimeSource => "embed linkage needs the runtime source"

inductive SyntaxFault
  | unexpected
  | missing (kind : String)
  | unlocated
  deriving DecidableEq

def SyntaxFault.message : SyntaxFault → String
  | .unexpected => "unexpected token"
  | .missing kind => "missing '" ++ kind ++ "'"
  | .unlocated => "syntax error"

inductive InstrumentError
  | parse (file : String) (line column : Nat) (fault : SyntaxFault)
  | unknownDirective (file : String) (line : Nat) (verb : String)
  | contract (breach : Breach)
  | invalidOptions (fault : OptionFault)
  deriving DecidableEq

def InstrumentError.message : InstrumentError → String
  | .parse file line column fault =>
    file ++ ":" ++ toString line ++ ":" ++ toString column ++ ": parse error: " ++ fault.message
  | .unknownDirective file line verb =>
    file ++ ":" ++ toString line ++ ": unknown JSane directive '" ++ verb ++ "'"
  | .contract breach => "Contract violation: " ++ breach.message
  | .invalidOptions fault => "Invalid options: " ++ fault.message

/-- How an instrumentation ends without a program: with an error, or in the attempt to cut its text
inside a character, which no error value reports. -/
inductive Halt
  | error (e : InstrumentError)
  | insideCharacter (offset : Nat)
  deriving DecidableEq

inductive CallRefusal
  | optionalCall
  | taggedTemplate
  | spreadArguments
  | callee
  deriving DecidableEq

def CallRefusal.phrase : CallRefusal → String
  | .optionalCall => "optional call of"
  | .taggedTemplate => "tagged template"
  | .spreadArguments => "call with spread arguments to"
  | .callee => "call of"

inductive Directive
  | on
  | off
  | ignore
  deriving DecidableEq

def Directive.verb : Directive → String
  | .on => "on"
  | .off => "off"
  | .ignore => "ignore"

inductive Complaint
  | uninstrumentedCall (why : CallRefusal) (callee : String)
  | duplicateDirective (directive : Directive)
  deriving DecidableEq

def Complaint.message : Complaint → String
  | .uninstrumentedCall why callee => why.phrase ++ " '" ++ callee ++ "' left uninstrumented"
  | .duplicateDirective directive => "Duplicate \"JSane: " ++ directive.verb ++ "\" instruction"

structure Diagnostic where
  file : String
  line : Nat
  complaint : Complaint
  deriving DecidableEq

def Diagnostic.message (d : Diagnostic) : String :=
  d.file ++ ":" ++ toString d.line ++ ": " ++ d.complaint.message

end CoercionTrace
