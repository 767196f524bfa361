/-!
# Why a file operation fails
-/

namespace ManifestSync.Files

/-- Why an operation on files has failed. -/
inductive Cause where
  | notFound
  | exists
  | notDirectory
  | isDirectory
  | tooManyLinks
  | nameTooLong
  | denied
  /-- A path with a character that no file name may have. -/
  | badName
  /-- The bytes of a text file are not UTF-8. -/
  | notText
  deriving DecidableEq, Repr, Inhabited

/-- The words for a cause; those of the system have its number. -/
def Cause.message : Cause → String
  | .notFound => "No such file or directory (os error 2)"
  | .denied => "Permission denied (os error 13)"
  | .exists => "File exists (os error 17)"
  | .notDirectory => "Not a directory (os error 20)"
  | .isDirectory => "Is a directory (os error 21)"
  | .nameTooLong => "File name too long (os error 36)"
  | .tooManyLinks => "Too many levels of symbolic links (os error 40)"
  | .badName => "file name contained an unexpected NUL byte"
  | .notText => "stream did not contain valid UTF-8"

end ManifestSync.Files
