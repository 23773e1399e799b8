import BlockFS.Record.Superblock
import BlockFS.Record.Inode
import BlockFS.Record.Directory
import BlockFS.Space.Usage
import BlockFS.Path

/-!
A mounted file system as it is held in memory, and the questions it asks its disk: what an inode or
the slots of a directory hold, and where a path leads.
-/

set_option autoImplicit false
set_option relaxedAutoImplicit false

namespace BlockFS

namespace Superblock

def load (deviceBlocks : Nat) : Query Superblock := do
  let block ← Query.block superblockId
  let sb := decode block
  if sb.magic ≠ magicNumber then Query.refuse .invalidSuperblock
  else do
    checkFit sb.diskSize deviceBlocks
    return sb

def loadInode (sb : Superblock) (id : UInt32) : Query Inode := do
  sb.checkRange id
  let block ← Query.block id
  return Inode.decode block

end Superblock

namespace Inode

def slots (i : Inode) : Query Directory :=
  if i.isDirectory then do
    let block ← Query.block i.slotsBlock
    return Directory.decode block
  else Query.refuse .notADirectory

def child (i : Inode) (name : Name) : Query Slot := do
  let slots ← i.slots
  match slots.find name with
  | some position => return slots.get position
  | none => Query.refuse .notFound

end Inode

namespace Superblock

def walk (sb : Superblock) (id : UInt32) : Path → Query UInt32
  | [] => return id
  | name :: rest => do
    let inode ← sb.loadInode id
    let slot ← inode.child name
    walk sb slot.inode rest

/-- The inode number reached from the root along a path without its last `depth` names: the target
itself for 0, its parent for 1, and the root when no name remains. -/
def reach (sb : Superblock) (path : Path) (depth : Nat) : Query UInt32 :=
  sb.walk rootId (path.take (path.length - depth))

end Superblock

/-- A mounted file system: its superblock, and the bitmap and counters it keeps in memory. -/
structure Volume where
  superblock : Superblock
  bitmap : Bitmap
  usage : Usage
  deriving DecidableEq

namespace Volume

/-- Mounts the file system on a device with the given number of blocks. Its root must be a
directory. -/
def load (deviceBlocks : Nat) : Query Volume := do
  let superblock ← Superblock.load deviceBlocks
  let bitmap ← Bitmap.load superblock.diskSize
  let usage ← Usage.ofBitmap bitmap
  let root ← superblock.loadInode rootId
  if root.isDirectory then return ⟨superblock, bitmap, usage⟩
  else Query.refuse .invalidSuperblock

def locate (v : Volume) (text : String) (depth : Nat) : Query (UInt32 × Inode) := do
  let path ← Path.ofString text
  let id ← v.superblock.reach path depth
  let inode ← v.superblock.loadInode id
  return (id, inode)

def lookup (v : Volume) (path : String) : Query UInt32 := do
  let (id, _) ← v.locate path 0
  return id

def attributes (v : Volume) (path : String) : Query Attributes := do
  let (id, inode) ← v.locate path 0
  return inode.attributes id

/-- The names in slots, with the attributes of the files they name. -/
def describe (v : Volume) : List Slot → Query (List (Name × Attributes))
  | [] => return []
  | slot :: rest => do
    let inode ← v.superblock.loadInode slot.inode
    let others ← v.describe rest
    return (slot.storedName, inode.attributes slot.inode) :: others

/-- The entries of the directory at a path, in slot order, with their attributes. -/
def list (v : Volume) (path : String) : Query (List (Name × Attributes)) := do
  let (_, inode) ← v.locate path 0
  let slots ← inode.slots
  v.describe slots.entries

end Volume

end BlockFS
