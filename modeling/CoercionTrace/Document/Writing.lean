import CoercionTrace.Document.Basic
import CoercionTrace.Text.Quoted

/-!
# Writing documents

A document is written in one line, or with each field and element on a line of its own, two blanks
deeper than what holds it.
-/

namespace CoercionTrace

namespace Document

def quotedText (text : Option String) : String := Text.Quoted.json (text.getD "")

mutual

def compact : Document → String
  | .null => "null"
  | .bool b => if b then "true" else "false"
  | .number literal => literal
  | .string text => quotedText text
  | .array elements => "[" ++ ",".intercalate (compactAll elements) ++ "]"
  | .object fields => "\x7b" ++ ",".intercalate (compactFields fields) ++ "\x7d"

def compactAll : List Document → List String
  | [] => []
  | d :: rest => compact d :: compactAll rest

def compactFields : List (Option String × Document) → List String
  | [] => []
  | (name, d) :: rest => (quotedText name ++ ":" ++ compact d) :: compactFields rest

end

def newLine (depth : Nat) : String := String.ofList ('\n' :: List.replicate (2 * depth) ' ')

/-- Lines between brackets; nothing stands between the brackets of an empty list. -/
def block (depth : Nat) (opening closing : String) (lines : List String) : String :=
  if lines.isEmpty then opening ++ closing
  else
    opening ++ newLine (depth + 1) ++ ("," ++ newLine (depth + 1)).intercalate lines ++
      newLine depth ++ closing

mutual

def pretty (depth : Nat) : Document → String
  | .null => "null"
  | .bool b => if b then "true" else "false"
  | .number literal => literal
  | .string text => quotedText text
  | .array elements => block depth "[" "]" (prettyAll (depth + 1) elements)
  | .object fields => block depth "\x7b" "\x7d" (prettyFields (depth + 1) fields)

def prettyAll (depth : Nat) : List Document → List String
  | [] => []
  | d :: rest => pretty depth d :: prettyAll depth rest

def prettyFields (depth : Nat) : List (Option String × Document) → List String
  | [] => []
  | (name, d) :: rest => (quotedText name ++ ": " ++ pretty depth d) :: prettyFields depth rest

end

end Document

end CoercionTrace
