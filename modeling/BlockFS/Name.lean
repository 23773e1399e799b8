import BlockFS.Layout

/-!
Names of directory entries. A name ends at its first NUL, and at most `maxNameLength` bytes of it
count; a longer name is cut where a character begins, so that no part of a character is stored.
-/

set_option autoImplicit false
set_option relaxedAutoImplicit false

namespace BlockFS

abbrev Name := List UInt8

namespace Name

/-- Bytes that continue a character of more than one byte. -/
def isContinuation (byte : UInt8) : Bool := byte &&& 0xC0 == 0x80

def beforeNul (name : Name) : Name := name.takeWhile (· != 0)

/-- The last position at or before the given one where a name may be cut. -/
def boundary (name : Name) : Nat → Nat
  | 0 => 0
  | position + 1 =>
    if name[position + 1]?.any isContinuation then boundary name position else position + 1

/-- A name of at most `maxNameLength` bytes as it is, a longer one cut at a character boundary. -/
def truncate (name : Name) : Name :=
  if name.length ≤ maxNameLength then name else name.take (boundary name maxNameLength)

/-- The form in which names are compared. -/
def canonical (name : Name) : Name := truncate (beforeNul name)

theorem boundary_le (name : Name) (position : Nat) : boundary name position ≤ position := by
  induction position with
  | zero => simp [boundary]
  | succ position ih =>
    unfold boundary
    split <;> omega

theorem length_truncate_le (name : Name) : (truncate name).length ≤ maxNameLength := by
  unfold truncate
  split
  · assumption
  · have := boundary_le name maxNameLength
    simp only [List.length_take]
    omega

/-- The name field that holds a name: the truncated name, then zeros. -/
def toField (name : Name) : Vector UInt8 nameField :=
  ⟨((truncate name ++ List.replicate nameField 0).take nameField).toArray, by simp⟩

end Name

end BlockFS
