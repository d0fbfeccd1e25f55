import CoercionTrace.Check.Kind
import CoercionTrace.Check.Template

/-!
# Reports

What is said when a check fires.
-/

namespace CoercionTrace

structure CheckReport where
  kind : CheckKind
  severity : Severity
  location : Option String
  head : String
  message : String
  deriving DecidableEq, Inhabited

def CheckKind.code (k : CheckKind) (s : Severity) : String := s.letter ++ toString k.index

namespace CheckReport

def code (r : CheckReport) : String := r.kind.code r.severity

def historyText (lines : List String) : String :=
  if lines.isEmpty then "" else "\nTrace+\n\t" ++ String.intercalate "\n\t" lines

def make (kind : CheckKind) (severity : Severity) (arguments : List String)
    (location : Option String) (history : List String) : CheckReport :=
  let head := Template.fill kind.head arguments
  { kind, severity, location, head
    message := kind.code severity ++ ": " ++ head ++ "\n\t" ++
      Template.fill kind.detail arguments ++ "\n\tCategory: " ++ kind.category.text ++ "\n" ++
      historyText history }

def text (r : CheckReport) : String := "Jsane " ++ r.message

end CheckReport

end CoercionTrace
