/-!
Why an operation does not succeed. A refusal has a cause and the POSIX number reported for it. Two
failures are of another kind, and are kept apart so that their absence can be stated: an access past
the end of a fixed-length record, and a number that leaves the word it is kept in.
-/

set_option autoImplicit false
set_option relaxedAutoImplicit false

namespace BlockFS

inductive Error where
  | io
  | invalidSuperblock
  | notFound
  | notADirectory
  | isADirectory
  | alreadyExists
  | notEmpty
  | noSpace
  | invalidArgument
  | fileTooLarge
  deriving DecidableEq

namespace Error

def message : Error → String
  | io => "block device I/O error"
  | invalidSuperblock => "invalid superblock"
  | notFound => "no such file or directory"
  | notADirectory => "not a directory"
  | isADirectory => "is a directory"
  | alreadyExists => "file exists"
  | notEmpty => "directory not empty"
  | noSpace => "no space left on device"
  | invalidArgument => "invalid argument"
  | fileTooLarge => "file too large"

/-- The POSIX error number, positive; an invalid superblock counts as a device error. -/
def errno : Error → Nat
  | io => 5
  | invalidSuperblock => 5
  | notFound => 2
  | notADirectory => 20
  | isADirectory => 21
  | alreadyExists => 17
  | notEmpty => 39
  | noSpace => 28
  | invalidArgument => 22
  | fileTooLarge => 27

end Error

/-- How an operation fails: it is refused, it reaches past the end of a fixed-length record, or a
number leaves its word. -/
inductive Failure where
  | refused (reason : Error)
  | outOfBounds
  | overflow
  deriving DecidableEq

namespace Failure

/-- A computation that can only be refused is one that can fail. -/
def ofRefusal {α : Type} : Except Error α → Except Failure α
  | .ok a => .ok a
  | .error reason => .error (.refused reason)

instance : MonadLift (Except Error) (Except Failure) := ⟨ofRefusal⟩

/-- A computation that uses no state keeps it, whether it succeeds or fails. -/
def keeping {σ α : Type} : Except Failure α → EStateM Failure σ α
  | .ok a => fun s => .ok a s
  | .error failure => fun s => .error failure s

instance {σ : Type} : MonadLift (Except Failure) (EStateM Failure σ) := ⟨keeping⟩

end Failure

end BlockFS
