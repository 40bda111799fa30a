import TraversalPlan.Command.Run

/-!
# The program

The command line over the files of the system.
-/

namespace TraversalPlan

/-- What went wrong with a file, as far as it matters to a user. A code may also come negated. -/
def FileFailure.ofError : IO.Error → FileFailure
  | .noFileOrDirectory _ _ _ => .notFound
  | .permissionDenied _ _ _ => .permissionDenied
  | .inappropriateType _ 21 _ => .isDirectory
  | .inappropriateType _ _ _ => .notDirectory
  | .resourceExhausted _ 28 _ => .noSpace
  | .invalidArgument _ 36 _ => .nameTooLong
  | .invalidArgument _ 4294967260 _ => .nameTooLong
  | e => .other (toString e)

/-- Runs an action on a file. -/
def attempt {α : Type} (action : IO α) : IO (Except FileFailure α) := do
  match ← action.toBaseIO with
  | .ok a => return .ok a
  | .error e => return .error (.ofError e)

/-- The files of the system. -/
def systemFiles : Files IO where
  read path := do
    match ← attempt (IO.FS.readBinFile path) with
    | .error why => return .error why
    | .ok bytes =>
      match String.fromUTF8? bytes with
      | some text => return .ok text
      | none => return .error (.other "stream did not contain valid UTF-8")
  write path bytes := attempt (IO.FS.withFile path .write fun handle => do
    handle.write ⟨bytes.toArray⟩
    handle.flush)

end TraversalPlan

def main (args : List String) : IO UInt32 := do
  let outcome ← TraversalPlan.Command.run TraversalPlan.systemFiles args
  IO.print outcome.output
  IO.eprint outcome.errors
  return UInt32.ofNat outcome.status
