/-!
# Failures of the file system

Why a file could not be read or written, or a directory not be made.
-/

namespace CarrierTransport

inductive StorageError where
  | notFound
  | alreadyExists
  | notDirectory
  | isDirectory
  | nameTooLong
  /-- The bytes of the file are no text. -/
  | invalidText
deriving DecidableEq, Repr

namespace StorageError

/-- The system's words for the cause. -/
def reason : StorageError → String
  | .notFound => "No such file or directory (os error 2)"
  | .alreadyExists => "File exists (os error 17)"
  | .notDirectory => "Not a directory (os error 20)"
  | .isDirectory => "Is a directory (os error 21)"
  | .nameTooLong => "File name too long (os error 36)"
  | .invalidText => "stream did not contain valid UTF-8"

def message (e : StorageError) : String :=
  "IO Failure: " ++ e.reason

end StorageError

end CarrierTransport
