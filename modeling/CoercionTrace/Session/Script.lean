import CoercionTrace.Check.Config
import CoercionTrace.Host.Object
import CoercionTrace.Trace.Key

/-!
# Scripts

A script is a list of steps that work on values, tracers and monitors. The functions that it makes
have their bodies in a table of routines, so that a command holds no other command.
-/

namespace CoercionTrace

/-- How a script writes a value. An array, an object or a function is made anew each time. -/
inductive Term
  | value (v : Value)
  | named (name : String)
  | global
  | token (id : TraceId)
  | argument (i : Nat)
  | self
  | array (elements : List Term)
  | object (members : List (String × Term))
  | function (name : String) (arity : Nat) (source : Option String) (body : RoutineId)
  | inheriting (t : Term) (parent : Term)

instance : Inhabited Term := ⟨.value default⟩

structure KeyTerm where
  scope : Term := .value .null
  slot : Term := .value .null
  deriving Inhabited

inductive ValueCommand
  | evaluate
  | typeName
  | display
  | describe
  | inspect
  | facts
  | same (other : Term)
  | primitive
  | number
  | text
  | throw
  | numberText
  | int32

inductive ObjectCommand
  | own (key : String)
  | find (key : String)
  | hasOwn (key : String)
  | has (key : String)
  | set (key : String) (v : Term)
  | define (key : String) (v : Term) (enumerable writable configurable : Bool)
  | delete (key : String)
  | property (key : String)
  | ownKeys
  | enumerableKeys
  | inherit (parent : Term)
  | callable
  | lacksConversion
  | call (receiver : Term) (arguments : List Term)
  | invoke (method : String) (arguments : List Term)
  | isGlobal
  | shownHasOwn (key : String)
  | shownNames
  | shownKeys

inductive TraceCommand
  | depth
  | localEntry (slot : Slot)
  | globalEntry (key : TraceKey)
  | lines (key : TraceKey)
  | record (target : TraceKey) (v : Term) (source : TraceKey)
  | push (parameters : List (Option String)) (captured : List String)
  | pop
  | announce (arguments : Nat)
  | clearPending
  | clearReturn
  | inspect

inductive TracerRef
  | free (i : Nat)
  | ofMonitor (m : MonitorId)

structure OperandTerm where
  value : Term
  key : KeyTerm := {}
  deriving Inhabited

inductive MonitorCommand
  | tearDown
  | isTornDown
  | info
  | inspect
  | leaveError
  | setSeverity (kind : CheckKind) (severity : Severity)
  | severities
  | record
  | print
  | identify (v : Term)
  | key (key : KeyTerm)
  | lines (key : KeyTerm)
  | arithmetic (result : Option Term) (left right : OperandTerm) (operator location : String)
  | call (callee receiver : Term) (arguments : List Term) (text location : String)
  | assign (v : Term) (target source : KeyTerm)
  | enter (parameters : List (Option String)) (captured : List String)
  | leave
  | search (key target : Term)
  | withFrame (parameters captured : List String) (token : Option String) (body : RoutineId)
  | handle
  | installGlobal (key : String)

inductive MaskCommand
  | isInstalled
  | uninstall
  | identify (v : Term)
  | search (key target : Term)

inductive Command
  | value (v : Term) (c : ValueCommand)
  | readNumber (text : String)
  | binary (operator : String) (left right : Term)
  | object (v : Term) (c : ObjectCommand)
  | newTracer
  | trace (t : TracerRef) (c : TraceCommand)
  | keyText (key : TraceKey)
  | newMonitor (checks : CheckConfig) (printing : Bool)
  | newCurrent (checks : CheckConfig) (printing : Bool)
  | current
  | tearDownCurrent
  | forget (m : MonitorId)
  | monitor (m : MonitorId) (c : MonitorCommand)
  | newMask
  | mask (i : Nat) (c : MaskCommand)
  | inspectRealm
  | checkKind (kind : CheckKind)
  | fillTemplate (template : String) (arguments : List String)
  | makeReport (kind : CheckKind) (severity : Severity) (arguments : List String)
      (location : Option String) (history : List String)

instance : Inhabited Command := ⟨.current⟩

structure Step where
  command : Command
  name : Option String := none
  caught : Bool := false
  deriving Inhabited

inductive Ending
  | result (t : Term)
  | throw (t : Term)

structure Routine where
  body : List Step
  ending : Ending
  cleanup : List Step

instance : Inhabited Routine := ⟨⟨[], .result default, []⟩⟩

structure Script where
  routines : Array Routine
  steps : List Step

end CoercionTrace
