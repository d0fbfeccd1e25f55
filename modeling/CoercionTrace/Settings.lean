import CoercionTrace.Check.Config
import CoercionTrace.Document.Reading
import CoercionTrace.Instrument.Options

/-!
# Settings

What a configuration file may set: the options of instrumentation, the severities of checks and the
file of the runtime library. A file gives objects by field names or by position; what it leaves out
has its default, and fields it does not know are passed over.
-/

namespace CoercionTrace

structure Settings where
  instrument : InstrumentOptions := {}
  checks : CheckConfig := {}
  runtimePath : Option String := none
  deriving DecidableEq, Inhabited

namespace Settings

def text? : Document → Option String
  | .string t => t
  | _ => none

def optionalText? : Document → Option (Option String)
  | .null => some none
  | .string (some t) => some (some t)
  | _ => none

/-- A choice is given by name, or by an object with the name as its only field and nothing in it. -/
def choice? {α : Type} (ofKey? : String → Option α) : Document → Option α
  | .string (some name) => ofKey? name
  | .object [(some name, .null)] => ofKey? name
  | _ => none

structure Field (α : Type) where
  name : String
  decode : Document → α → Option α

def decodeNamed {α : Type} (fields : List (Field α)) (seen : List String) (record : α) :
    List (Option String × Document) → Option α
  | [] => some record
  | (none, _) :: _ => none
  | (some name, d) :: rest =>
    match fields.find? fun f => f.name == name with
    | none => decodeNamed fields seen record rest
    | some f =>
      if seen.contains name then none
      else (f.decode d record).bind fun record => decodeNamed fields (name :: seen) record rest

def decodePositional {α : Type} (record : α) : List (Field α) → List Document → Option α
  | _, [] => some record
  | [], _ :: _ => none
  | f :: fields, d :: rest =>
    (f.decode d record).bind fun record => decodePositional record fields rest

def decodeRecord {α : Type} (fields : List (Field α)) (record : α) : Document → Option α
  | .object members => decodeNamed fields [] record members
  | .array elements => decodePositional record fields elements
  | _ => none

def linkageOfKey? : String → Option Linkage
  | "embed" => some .embed
  | "require" => some .require
  | "assume_preexisting" => some .preexisting
  | "none" => some .preexisting
  | _ => none

def linkageKey : Linkage → String
  | .embed => "embed"
  | .require => "require"
  | .preexisting => "assume_preexisting"

theorem linkageOfKey?_linkageKey (l : Linkage) : linkageOfKey? (linkageKey l) = some l := by
  cases l <;> rfl

def instrumentFields : List (Field InstrumentOptions) :=
  [{ name := "hook_variable_name",
     decode := fun d o => (text? d).map fun t => { o with hookName := t } },
   { name := "linkage",
     decode := fun d o => (choice? linkageOfKey? d).map fun l => { o with linkage := l } },
   { name := "module_name",
     decode := fun d o => (text? d).map fun t => { o with moduleName := t } }]

def decodeChecks : CheckConfig → List (Option String × Document) → Option CheckConfig
  | c, [] => some c
  | _, (none, _) :: _ => none
  | c, (some name, d) :: rest => do
    let kind ← CheckKind.ofKey? name
    let severity ← choice? Severity.ofKey? d
    decodeChecks (c.set kind severity) rest

def checks? : Document → Option CheckConfig
  | .object members => decodeChecks {} members
  | _ => none

def fields : List (Field Settings) :=
  [{ name := "instrument",
     decode := fun d s =>
       (decodeRecord instrumentFields {} d).map fun o => { s with instrument := o } },
   { name := "checks",
     decode := fun d s => (checks? d).map fun c => { s with checks := c } },
   { name := "runtime_path",
     decode := fun d s => (optionalText? d).map fun p => { s with runtimePath := p } }]

def ofDocument? (d : Document) : Option Settings := decodeRecord fields {} d

def read? (text : String) : Option Settings := (Document.read? text).bind ofDocument?

def instrumentDocument (o : InstrumentOptions) : Document :=
  .object
    [(some "hook_variable_name", .string (some o.hookName)),
     (some "linkage", .string (some (linkageKey o.linkage))),
     (some "module_name", .string (some o.moduleName))]

def document (s : Settings) : Document :=
  .object
    [(some "instrument", instrumentDocument s.instrument),
     (some "checks", s.checks.document),
     (some "runtime_path", match s.runtimePath with
       | some p => .string (some p)
       | none => .null)]

def write (s : Settings) : String := s.document.pretty 0

end Settings

end CoercionTrace
