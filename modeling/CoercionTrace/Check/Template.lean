/-!
# Templates

A template names its arguments by number between braces. Each argument in turn takes the place of
the first such number, so an argument that itself holds a later number is filled in too.
-/

namespace CoercionTrace.Template

def after? : List Char → List Char → Option (List Char)
  | [], text => some text
  | _ :: _, [] => none
  | c :: start, d :: text => if c = d then after? start text else none

def fillFirst (gap filling : List Char) : List Char → List Char
  | [] => if gap.isEmpty then filling else []
  | c :: text =>
    match after? gap (c :: text) with
    | some rest => filling ++ rest
    | none => c :: fillFirst gap filling text

def gap (i : Nat) : List Char := '\x7b' :: (toString i).toList ++ ['\x7d']

def fillFrom (i : Nat) (template : List Char) : List String → List Char
  | [] => template
  | a :: rest => fillFrom (i + 1) (fillFirst (gap i) a.toList template) rest

def fill (template : String) (arguments : List String) : String :=
  String.ofList (fillFrom 0 template.toList arguments)

end CoercionTrace.Template
