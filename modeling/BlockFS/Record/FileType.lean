import BlockFS.Layout

/-!
The two types of file, and the bits of a mode that tell them apart.
-/

set_option autoImplicit false
set_option relaxedAutoImplicit false

namespace BlockFS

inductive FileType where
  | regular
  | directory
  deriving DecidableEq

namespace FileType

/-- A mode without the type bits of a directory counts as that of a regular file. -/
def ofMode (mode : UInt32) : FileType :=
  if mode &&& typeMask = directoryBits then directory else regular

def bits : FileType → UInt32
  | regular => regularBits
  | directory => directoryBits

/-- Blocks that a new file of this type takes: its inode, and for a directory its slots. -/
def blockCount : FileType → Nat
  | regular => 1
  | directory => 2

end FileType

end BlockFS
