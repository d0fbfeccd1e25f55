import CoercionTrace.Syntax.Code

/-!
# Replacements

What a node is replaced by. Expressions are replaced by generated expressions, statements are
terminated, bodies and the program take generated declarations between two parts of their own text.
-/

namespace CoercionTrace

/-- The call that announces a frame, and the declarations that stand beside it. -/
structure FrameHeader where
  enter : Code
  /-- The variable that keeps the identity of the call, when closures need it. -/
  traceVariable : Option String
  temporaries : List String

def declareAll (names : List String) : String := "var " ++ ", ".intercalate names ++ ";"

def FrameHeader.print (h : FrameHeader) : String :=
  match h.traceVariable with
  | some v => " " ++ declareAll ((v ++ " = " ++ h.enter.print) :: h.temporaries)
  | none =>
    if h.temporaries.isEmpty then " " ++ h.enter.print ++ ";"
    else " " ++ h.enter.print ++ "; " ++ declareAll h.temporaries

structure ProgramHeader where
  /-- Whether the part before the header ends with a directive. -/
  afterDirective : Bool
  unterminated : Bool
  linkage : String
  temporaries : List String

def ProgramHeader.parts (h : ProgramHeader) : List String :=
  (if h.afterDirective && h.unterminated then [";"] else []) ++
  (if h.linkage.isEmpty then [] else [h.linkage]) ++
  (if h.temporaries.isEmpty then [] else [declareAll h.temporaries])

inductive Replacement
  | text (text : String)
  | expression (code : Code)
  /-- The statement's own text between semicolons that it lacked. -/
  | statement (leading : Bool) (text : String) (trailing : Bool)
  | returned (value : Code)
  /-- The body of an instrumented function: its directives, the frame, the rest of its text. -/
  | framedBody (directives : String) (header : FrameHeader) (rest : String) (leave : Code)
  /-- The body of another function that declares temporaries. -/
  | hostBody (directives : String) (temporaries : List String) (rest : String)
  /-- The program with its header; a blank follows the header when `gap` is set. -/
  | program (before : String) (header : ProgramHeader) (gap : Bool) (rest : String)

namespace Replacement

def print : Replacement → String
  | .text s => s
  | .expression code => code.print
  | .statement leading s trailing =>
    (if leading then ";" else "") ++ s ++ (if trailing then ";" else "")
  | .returned value => "return " ++ value.print ++ ";"
  | .framedBody directives header rest leave =>
    "\x7b" ++ directives ++ header.print ++ " try \x7b" ++ rest ++ "\x7d finally \x7b " ++
      leave.print ++ "; \x7d\x7d"
  | .hostBody directives temporaries rest =>
    "\x7b" ++ directives ++ " " ++ declareAll temporaries ++ rest ++ "\x7d"
  | .program before header gap rest =>
    before ++ (if header.afterDirective then " " else "") ++ " ".intercalate header.parts ++
      (if gap then " " else "") ++ rest

end Replacement

end CoercionTrace
