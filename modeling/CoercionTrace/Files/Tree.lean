import CoercionTrace.Files.Access
import CoercionTrace.Table

/-!
# File trees

A working directory with files in it, and what the paths that lead through it name. The directories
are those that the files' own names pass through; what lies outside is unknown, so nothing is found
there. Every file is a text that can be read: files without permission, or with bytes that are no text,
are not represented, and neither are the failures to read them.
-/

namespace CoercionTrace

/-- Files by their names from the working directory. -/
structure FileTree where
  files : Table String String := .empty
  deriving Inhabited

inductive Place
  | file (name : String)
  | directory
  | absent (name : String)

namespace FileTree

def joinPath (parts : List String) : String := "/".intercalate parts

def hasDirectory (t : FileTree) (name : String) : Bool :=
  t.files.keys.any fun k => (name ++ "/").toList.isPrefixOf k.toList

def longestName : Nat := 255

def longestPath : Nat := 4095

/-- Follow a path from a directory, which lies `above` levels over the working directory and from
there goes down by `here`. -/
def walk (t : FileTree) (above : Nat) (here : List String) : List String → Except FileError Place
  | [] => .ok .directory
  | part :: rest =>
    if part = "." then walk t above here rest
    else if part = ".." then
      if here.isEmpty then walk t (above + 1) [] rest else walk t above here.dropLast rest
    else if part.utf8ByteSize > longestName then .error .nameTooLong
    else if above ≠ 0 then .error .notFound
    else
      let name := joinPath (here ++ [part])
      if t.files.contains name then
        if rest.isEmpty then .ok (.file name) else .error .notDirectory
      else if t.hasDirectory name then walk t above (here ++ [part]) rest
      else if rest.isEmpty then .ok (.absent name)
      else .error .notFound

/-- What a path leads to; with a slash at its end only directories count when `strict` is set. -/
def locate (t : FileTree) (strict : Bool) (path : String) : Except FileError Place :=
  if path.isEmpty then .error .notFound
  else if path.toList.contains '\x00' then .error .nulByte
  else if path.utf8ByteSize > longestPath then .error .nameTooLong
  else
    let parts := ((path.toList.splitOn '/').filter (!·.isEmpty)).map String.ofList
    if path.toList.head? = some '/' then
      if parts.isEmpty then .ok .directory else .error .notFound
    else if strict && path.toList.getLast? = some '/' then t.walk 0 [] (parts ++ ["."])
    else t.walk 0 [] parts

def read (t : FileTree) (path : String) : Except FileError String :=
  match t.locate true path with
  | .ok (.file name) => match t.files.find? name with
    | some text => .ok text
    | none => .error .notFound
  | .ok .directory => .error .isDirectory
  | .ok (.absent _) => .error .notFound
  | .error e => .error e

def write (t : FileTree) (path text : String) : Except FileError FileTree :=
  match t.locate false path with
  | .ok .directory => .error .isDirectory
  | .ok (.file name) | .ok (.absent name) =>
    if path.toList.getLast? = some '/' then .error .isDirectory
    else .ok ⟨t.files.insert name text⟩
  | .error e => .error e

def access : FileAccess (StateM FileTree) where
  read path := return (← get).read path
  write path text := do
    match (← get).write path text with
    | .ok t =>
      set t
      return .ok ()
    | .error e => return .error e

end FileTree

end CoercionTrace
