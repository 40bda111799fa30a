/-!
# Files

* `FileFailure`: why a file cannot be read or written.
* `Files`: reading and writing files by path.
-/

namespace TraversalPlan

/-- Why a file cannot be read or written. -/
inductive FileFailure where
  | notFound
  | permissionDenied
  | notDirectory
  | isDirectory
  | noSpace
  | nameTooLong
  | other (message : String)
deriving DecidableEq, Repr

def FileFailure.message : FileFailure → String
  | notFound => "No such file or directory (os error 2)"
  | permissionDenied => "Permission denied (os error 13)"
  | notDirectory => "Not a directory (os error 20)"
  | isDirectory => "Is a directory (os error 21)"
  | noSpace => "No space left on device (os error 28)"
  | nameTooLong => "File name too long (os error 36)"
  | other message => message

/-- Reading and writing files by path. -/
structure Files (m : Type → Type) where
  read : String → m (Except FileFailure String)
  write : String → List UInt8 → m (Except FileFailure Unit)

end TraversalPlan
