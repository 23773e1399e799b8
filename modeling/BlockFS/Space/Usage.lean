import BlockFS.Space.Bitmap

/-!
Counters of usable and free blocks. They are counted once from a bitmap and then adjusted at each
allocation and release.
-/

set_option autoImplicit false
set_option relaxedAutoImplicit false

namespace BlockFS

/-- Usable blocks, and how many of them are free. The superblock and the bitmap do not count. -/
structure Usage where
  total : UInt32
  free : UInt32
  deriving DecidableEq

structure Statistics where
  blockSize : Nat
  blocks : UInt32
  blocksFree : UInt32
  blocksAvailable : UInt32
  nameMax : Nat
  deriving DecidableEq

namespace Usage

def ofBitmap (b : Bitmap) : Except Failure Usage := do
  let used ← b.usedFrom reservedBlocks
  let total := b.blocks.toNat - reservedBlocks.toNat
  return ⟨UInt32.ofNat total, UInt32.ofNat (total - used)⟩

/-- Nothing is held back: all free blocks are available. -/
def available (u : Usage) : UInt32 := u.free

/-- The used blocks; none when there are more free blocks than usable ones. -/
def used? (u : Usage) : Option UInt32 := if u.total < u.free then none else some (u.total - u.free)

/-- Takes blocks from the free ones; overflows when fewer than that are counted. -/
def charge (u : Usage) (count : Nat) : Except Failure Usage :=
  if u.free.toNat < count then .error .overflow
  else .ok { u with free := UInt32.ofNat (u.free.toNat - count) }

/-- Gives blocks back; overflows when the counter cannot hold so many. -/
def credit (u : Usage) (count : Nat) : Except Failure Usage :=
  if UInt32.size ≤ u.free.toNat + count then .error .overflow
  else .ok { u with free := UInt32.ofNat (u.free.toNat + count) }

def statistics (u : Usage) : Statistics where
  blockSize := BlockFS.blockSize
  blocks := u.total
  blocksFree := u.free
  blocksAvailable := u.available
  nameMax := maxNameLength

end Usage

end BlockFS
