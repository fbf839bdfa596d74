/-!
Why an operation on files is refused.
-/

namespace OperatorScaffold

inductive FileError where
  | noEntry
  | notProgram
  | denied
  | busy
  | alreadyExists
  | notDirectory
  | isDirectory
  | nameTooLong
  | tooManyLinks
  /-- The file is read as text and is not UTF-8. -/
  | notText
  /-- The path holds a NUL, which no name can. -/
  | nulInName
  deriving DecidableEq

namespace FileError

def message : FileError → String
  | .notProgram => "Exec format error (os error 8)"
  | .noEntry => "No such file or directory (os error 2)"
  | .denied => "Permission denied (os error 13)"
  | .busy => "Device or resource busy (os error 16)"
  | .alreadyExists => "File exists (os error 17)"
  | .notDirectory => "Not a directory (os error 20)"
  | .isDirectory => "Is a directory (os error 21)"
  | .nameTooLong => "File name too long (os error 36)"
  | .tooManyLinks => "Too many levels of symbolic links (os error 40)"
  | .notText => "stream did not contain valid UTF-8"
  | .nulInName => "file name contained an unexpected NUL byte"

end FileError

end OperatorScaffold
