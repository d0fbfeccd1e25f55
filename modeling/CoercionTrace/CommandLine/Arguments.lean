import CoercionTrace.Instrument.Options

/-!
# Arguments

What the arguments of a command line ask for. An option takes its value from the next argument or
from behind an equals sign; none may stand twice; after a double dash everything is a file.
-/

namespace CoercionTrace

structure Request where
  input : Option String := none
  output : Option String := none
  hookName : Option String := none
  linkage : Option Linkage := none
  moduleName : Option String := none
  runtime : Option String := none
  config : Option String := none
  debug : Bool := false
  deriving DecidableEq

inductive ValueOption
  | output
  | hookName
  | linkage
  | moduleName
  | runtime
  | config
  deriving DecidableEq

inductive Arguments
  | run (input : String) (request : Request)
  | help
  | version
  | misuse
  deriving DecidableEq

namespace Arguments

def valueOption? : String → Option ValueOption
  | "output" => some .output
  | "hook-name" => some .hookName
  | "linkage" => some .linkage
  | "module" => some .moduleName
  | "runtime" => some .runtime
  | "config" => some .config
  | _ => none

def linkage? : String → Option Linkage
  | "embed" => some .embed
  | "require" => some .require
  | "none" => some .preexisting
  | _ => none

def setOption (r : Request) (value : String) : ValueOption → Option Request
  | .output => if r.output.isSome then none else some { r with output := some value }
  | .hookName => if r.hookName.isSome then none else some { r with hookName := some value }
  | .linkage =>
    if r.linkage.isSome then none
    else (linkage? value).map fun l => { r with linkage := some l }
  | .moduleName => if r.moduleName.isSome then none else some { r with moduleName := some value }
  | .runtime => if r.runtime.isSome then none else some { r with runtime := some value }
  | .config => if r.config.isSome then none else some { r with config := some value }

inductive Word
  | plain (text : String)
  | option (o : ValueOption) (value : Option String)
  | debug
  | help
  | version
  | doubleDash
  | unknown

def splitEquals (s : List Char) : String × Option String :=
  let name := s.takeWhile (· ≠ '=')
  match s.drop name.length with
  | [] => (String.ofList name, none)
  | _ :: value => (String.ofList name, some (String.ofList value))

def longWord (s : List Char) : Word :=
  match splitEquals s with
  | ("debug", none) => .debug
  | ("help", none) => .help
  | ("version", none) => .version
  | (name, value) => match valueOption? name with
    | some o => .option o value
    | none => .unknown

def shortWord : List Char → Word
  | 'h' :: _ => .help
  | 'V' :: _ => .version
  | 'o' :: rest => .option .output <| match rest with
    | [] => none
    | '=' :: value => some (String.ofList value)
    | value => some (String.ofList value)
  | _ => .unknown

def word (argument : String) : Word :=
  match argument.toList with
  | ['-'] => .plain argument
  | ['-', '-'] => .doubleDash
  | '-' :: '-' :: rest => longWord rest
  | '-' :: rest => shortWord rest
  | _ => .plain argument

def setInput (r : Request) (file : String) : Option Request :=
  if r.input.isSome then none else some { r with input := some file }

def readFrom (r : Request) (waiting : Option ValueOption) (filesOnly : Bool) :
    List String → Arguments
  | [] => match waiting, r.input with
    | none, some input => .run input r
    | _, _ => .misuse
  | argument :: rest =>
    if filesOnly then
      match setInput r argument with
      | some r => readFrom r none true rest
      | none => .misuse
    else match waiting, word argument with
      | some o, .plain value => match setOption r value o with
        | some r => readFrom r none false rest
        | none => .misuse
      | some _, _ => .misuse
      | none, .plain file => match setInput r file with
        | some r => readFrom r none false rest
        | none => .misuse
      | none, .option o none => readFrom r (some o) false rest
      | none, .option o (some value) => match setOption r value o with
        | some r => readFrom r none false rest
        | none => .misuse
      | none, .debug =>
        if r.debug then .misuse else readFrom { r with debug := true } none false rest
      | none, .help => .help
      | none, .version => .version
      | none, .doubleDash => readFrom r none true rest
      | none, .unknown => .misuse

def read (arguments : List String) : Arguments := readFrom {} none false arguments

end Arguments

end CoercionTrace
