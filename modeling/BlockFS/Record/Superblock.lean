import BlockFS.Block
import BlockFS.LittleEndian

/-!
The superblock: a magic number and the number of blocks of the file system, then zeros.
-/

set_option autoImplicit false
set_option relaxedAutoImplicit false

namespace BlockFS

/-- What block 0 records about a file system. -/
structure Superblock where
  magic : UInt32
  diskSize : UInt32
  deriving DecidableEq

namespace Superblock

def ofSize (diskSize : UInt32) : Superblock := ⟨magicNumber, diskSize⟩

/-- Bytes that carry information; all others are zero. -/
abbrev headerSize : Nat := 8

def header (sb : Superblock) : List UInt8 :=
  LittleEndian.encode 4 sb.magic.toNat ++ LittleEndian.encode 4 sb.diskSize.toNat

def encode (sb : Superblock) : Block := Block.padded sb.header

def decode (block : Block) : Superblock where
  magic := UInt32.ofNat (LittleEndian.word block 0 4)
  diskSize := UInt32.ofNat (LittleEndian.word block 4 4)

def ofBuffer (buffer : List UInt8) : Except Failure Superblock :=
  if headerSize ≤ buffer.length then .ok (decode (Block.padded buffer)) else .error .outOfBounds

/-- A buffer of the given length that holds the superblock and is zero behind it. -/
def toBuffer (sb : Superblock) (length : Nat) : Except Failure (List UInt8) :=
  if headerSize ≤ length then .ok (sb.header ++ List.replicate (length - headerSize) 0)
  else .error .outOfBounds

/-- The root inode, its slots and the two blocks before them must fit, the bitmap is a single block,
and the device must be large enough. -/
def checkFit (diskSize : UInt32) (deviceBlocks : Nat) : Except Error Unit :=
  if diskSize < rootId + 2 ∨ maxDiskBlocks < diskSize.toNat ∨ deviceBlocks < diskSize.toNat then
    .error .invalidSuperblock
  else .ok ()

/-- An inode lies behind the reserved blocks and within the file system. -/
def checkRange (sb : Superblock) (id : UInt32) : Except Error Unit :=
  if id < rootId ∨ sb.diskSize ≤ id then .error .io else .ok ()

end Superblock

end BlockFS
