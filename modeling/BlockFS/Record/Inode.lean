import BlockFS.Block
import BlockFS.LittleEndian
import BlockFS.Record.FileType

/-!
Inodes: owner, mode, times and size of a file, and the numbers of the blocks that hold its data. An
inode takes a whole block. Its size field is signed and comes from the device unchecked: `length` is
the number of bytes it stands for, and the data paths ask for `boundedLength`.
-/

set_option autoImplicit false
set_option relaxedAutoImplicit false

namespace BlockFS

def blocksToHold (length : Nat) : Nat := (length + (blockSize - 1)) / blockSize

structure Owner where
  uid : UInt16
  gid : UInt16
  deriving DecidableEq

structure Inode where
  uid : UInt16
  gid : UInt16
  mode : UInt32
  ctime : UInt32
  mtime : UInt32
  size : Int32
  pointers : Vector UInt32 pointerCount
  deriving DecidableEq

namespace Inode

def header (i : Inode) : Vector UInt8 inodeHeaderSize :=
  LittleEndian.bytes 2 i.uid.toNat ++ LittleEndian.bytes 2 i.gid.toNat ++
    LittleEndian.bytes 4 i.mode.toNat ++ LittleEndian.bytes 4 i.ctime.toNat ++
    LittleEndian.bytes 4 i.mtime.toNat ++ LittleEndian.bytes 4 i.size.toUInt32.toNat

def encode (i : Inode) : Block :=
  i.header ++ (i.pointers.map fun pointer => LittleEndian.bytes 4 pointer.toNat).flatten

def decode (block : Block) : Inode where
  uid := UInt16.ofNat (LittleEndian.word block 0 2)
  gid := UInt16.ofNat (LittleEndian.word block 2 2)
  mode := UInt32.ofNat (LittleEndian.word block 4 4)
  ctime := UInt32.ofNat (LittleEndian.word block 8 4)
  mtime := UInt32.ofNat (LittleEndian.word block 12 4)
  size := (UInt32.ofNat (LittleEndian.word block 16 4)).toInt32
  pointers := Vector.ofFn fun k =>
    UInt32.ofNat (LittleEndian.word block (inodeHeaderSize + 4 * k.val) 4)

def ofBuffer (buffer : List UInt8) : Except Failure Inode := do
  return decode (← Block.ofBuffer buffer)

def intoBuffer (i : Inode) (buffer : List UInt8) : Except Failure (List UInt8) :=
  i.encode.intoBuffer buffer

/-- A new inode without data. A directory that is given a block for its slots has the size of that
block. -/
def fresh (type : FileType) (permissions : UInt32) (owner : Owner) (now : UInt32)
    (slots : Option UInt32) : Inode where
  uid := owner.uid
  gid := owner.gid
  mode := (permissions &&& ~~~typeMask) ||| type.bits
  ctime := now
  mtime := now
  size := match type, slots with
    | .directory, some _ => Int32.ofNat blockSize
    | _, _ => 0
  pointers := match type, slots with
    | .directory, some block => (Vector.replicate pointerCount 0).set 0 block pointerCount_pos
    | _, _ => Vector.replicate pointerCount 0

def type (i : Inode) : FileType := FileType.ofMode i.mode

def isDirectory (i : Inode) : Bool := i.type == .directory

/-- The type bits are exactly those of a regular file; an inode may be of neither type. -/
def isRegular (i : Inode) : Bool := i.mode &&& typeMask == regularBits

/-- The first pointer, which leads to the slots of a directory. -/
def slotsBlock (i : Inode) : UInt32 := i.pointers.get ⟨0, pointerCount_pos⟩

/-- The size in bytes; a negative one counts as 0. -/
def length (i : Inode) : Nat := i.size.toInt.toNat

/-- The size in bytes, refused when no array of pointers could hold that much. -/
def boundedLength (i : Inode) : Except Error Nat :=
  if maxFileSize < i.length then .error .io else .ok i.length

/-- Pointers in use. -/
def blockCount (i : Inode) : Nat := min (blocksToHold i.length) pointerCount

/-- The pointers in use; those behind them mean nothing. -/
def blocks (i : Inode) : Except Failure (List UInt32) := Window.read i.pointers 0 i.blockCount

end Inode

structure Attributes where
  inode : UInt32
  type : FileType
  mode : UInt32
  links : UInt32
  uid : UInt16
  gid : UInt16
  size : Nat
  blocks : Nat
  atime : UInt32
  mtime : UInt32
  ctime : UInt32
  deriving DecidableEq

/-- The attributes of the inode with the given number. There are no hard links, and the
modification time stands for all three times. -/
def Inode.attributes (i : Inode) (id : UInt32) : Attributes where
  inode := id
  type := i.type
  mode := i.mode
  links := 1
  uid := i.uid
  gid := i.gid
  size := i.length
  blocks := i.blockCount
  atime := i.mtime
  mtime := i.mtime
  ctime := i.mtime

end BlockFS
