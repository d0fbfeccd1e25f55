/-!
# Access to files

What a program that reads and writes whole files asks of its surroundings, and what may go wrong.
-/

namespace CoercionTrace

inductive FileError
  | notFound
  | notDirectory
  | isDirectory
  | nameTooLong
  | nulByte
  | system (message : String)
  deriving DecidableEq

def FileError.message : FileError → String
  | .notFound => "No such file or directory (os error 2)"
  | .notDirectory => "Not a directory (os error 20)"
  | .isDirectory => "Is a directory (os error 21)"
  | .nameTooLong => "File name too long (os error 36)"
  | .nulByte => "file name contained an unexpected NUL byte"
  | .system message => message

structure FileAccess (m : Type → Type) where
  read : String → m (Except FileError String)
  write : String → String → m (Except FileError Unit)

end CoercionTrace
