/-!
The numbers of the on-disk format. Block 0 is the superblock, block 1 the allocation bitmap, block 2
the root inode; every other block is an inode, the slots of a directory, or file data, told apart
only by what points at it. An inode has the number of the block that holds it.
-/

set_option autoImplicit false
set_option relaxedAutoImplicit false

namespace BlockFS

/-- The number in the first word of a superblock: the characters `5600`. -/
abbrev magicNumber : UInt32 := 0x30303635

abbrev blockSize : Nat := 4096

abbrev superblockId : UInt32 := 0

abbrev bitmapId : UInt32 := 1

abbrev rootId : UInt32 := 2

/-- The superblock and the bitmap are not usable space. -/
abbrev reservedBlocks : UInt32 := 2

/-- Bits of the bitmap block, and so the largest number of blocks of a file system. -/
abbrev maxDiskBlocks : Nat := 32768

/-- Bytes of a directory slot: a word for the inode number and the bit that says whether the slot
is used, then the name. -/
abbrev slotSize : Nat := 32

abbrev slotCount : Nat := 128

abbrev nameField : Nat := 28

/-- Bytes of the longest name: a name field ends in at least one NUL. -/
abbrev maxNameLength : Nat := 27

abbrev maxPathDepth : Nat := 10

abbrev inodeHeaderSize : Nat := 20

/-- Pointers of an inode; they fill the rest of its block. -/
abbrev pointerCount : Nat := 1019

/-- Bytes of the largest file: every pointer is in use. -/
abbrev maxFileSize : Nat := 4173824

abbrev typeMask : UInt32 := 0o170000

abbrev directoryBits : UInt32 := 0o040000

abbrev regularBits : UInt32 := 0o100000

abbrev permissionMask : UInt32 := 0o777

theorem pointerCount_pos : 0 < pointerCount := Nat.zero_lt_succ 1018

theorem maxFileSize_eq : pointerCount * blockSize = maxFileSize := rfl

end BlockFS
