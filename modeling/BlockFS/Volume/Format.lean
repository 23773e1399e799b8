import BlockFS.Volume.Basic

/-!
Laying out an empty file system, and mounting the one on a device. The first four blocks of an empty
file system are the superblock, the bitmap, the root inode and the slots of the root; all others are
free.
-/

set_option autoImplicit false
set_option relaxedAutoImplicit false

namespace BlockFS

namespace Volume

/-- The block that holds the slots of the root of an empty file system. -/
abbrev rootSlotsId : UInt32 := 3

def emptyRoot (now : UInt32) : Inode :=
  Inode.fresh .directory 0o755 ⟨0, 0⟩ now (some rootSlotsId)

/-- The bitmap block of an empty file system: the first four blocks are in use. -/
def emptyMap : Block := Block.padded [0b1111]

def emptyBlocks (diskSize now : UInt32) : List Block :=
  [(Superblock.ofSize diskSize).encode, emptyMap, (emptyRoot now).encode, Block.zero]

end Volume

namespace Device

def storeSuperblock (sb : Superblock) : EStateM Failure Device Unit := write superblockId sb.encode

def storeInode (sb : Superblock) (id : UInt32) (inode : Inode) : EStateM Failure Device Unit := do
  sb.checkRange id
  write id inode.encode

def mount : EStateM Failure Device Volume := fun d => (Volume.load d.disk.size).run d

/-- Lays out an empty file system over the first blocks of a device, then mounts it. -/
def format (diskSize now : UInt32) : EStateM Failure Device Volume := do
  let d ← get
  Superblock.checkFit diskSize d.disk.size
  writeBlocks superblockId.toNat (Volume.emptyBlocks diskSize now)
  flush
  mount

end Device

end BlockFS
