import BlockFS.Volume.Extent

/-!
Operations on the bytes of a regular file. A file has no holes: a write begins inside it or at its
end. New blocks are allocated before the inode that points at them is written, and the data follows;
a file that shrinks loses its pointers before their blocks are given back.
-/

set_option autoImplicit false
set_option relaxedAutoImplicit false

namespace BlockFS

namespace Inode

/-- What a read of at most `count` bytes from `offset` on has to transfer. -/
def readable (i : Inode) (offset count : Nat) : Except Failure (List Segment) :=
  if i.isRegular then do
    let length ← i.boundedLength
    if length ≤ offset ∨ count = 0 then return []
    else i.extent offset (offset + min count (length - offset))
  else .error (.refused .isADirectory)

/-- Reads a regular file from `offset` on into a buffer. A read at or past the end transfers nothing
and one that runs past it is cut short. -/
def readInto (i : Inode) (offset : Nat) (buffer : List UInt8) : StateM Device Filled :=
  fun device =>
  match i.readable offset buffer.length with
  | .error failure => (⟨.error failure, buffer⟩, device)
  | .ok segments => fill segments buffer device

end Inode

namespace Volume

/-- The inode with enough pointers for a block at index `last`, and the effects that allocate their
blocks. -/
def grow (v : Volume) (inode : Inode) (last : Nat) : Except Failure (Inode × List Effect) :=
  if last < inode.blockCount then .ok (inode, [])
  else do
    let blocks ← v.bitmap.firstFit reservedBlocks (last + 1 - inode.blockCount)
    let pointers ← Window.write inode.pointers inode.blockCount blocks
    return ({ inode with pointers := pointers }, Effect.allocate blocks)

/-- Writes bytes, of which there is at least one, over the range of a file that ends at `stop`. -/
def overwrite (v : Volume) (now : UInt32) (id : UInt32) (inode : Inode) (offset : Nat)
    (bytes : List UInt8) : Except Failure (Update Nat) := do
  let stop := offset + bytes.length
  let (grown, allocate) ← v.grow inode ((stop - 1) / blockSize)
  let size := if inode.length < stop then Int32.ofNat stop else inode.size
  let written := { grown with size := size, mtime := now }
  let store ← Effect.storeInode v.superblock id written
  let segments ← written.extent offset stop
  let data ← spread segments bytes
  return ⟨bytes.length, allocate ++ store :: data⟩

def writeFile (v : Volume) (now : UInt32) (id : UInt32) (inode : Inode) (offset : Nat)
    (bytes : List UInt8) : Except Failure (Update Nat) :=
  if inode.isRegular then do
    let length ← inode.boundedLength
    if length < offset then .error (.refused .invalidArgument)
    else if bytes.isEmpty then return ⟨0, []⟩
    else if maxFileSize < offset + bytes.length then .error (.refused .fileTooLarge)
    else v.overwrite now id inode offset bytes
  else .error (.refused .isADirectory)

def write (v : Volume) (now : UInt32) (path : String) (offset : Nat) (bytes : List UInt8) :
    Query (Update Nat) := do
  let (id, inode) ← v.locate path 0
  v.writeFile now id inode offset bytes

def shrinkFile (v : Volume) (id : UInt32) (inode : Inode) (length : Nat) :
    Except Failure (Update Unit) :=
  if inode.isRegular then do
    let old ← inode.boundedLength
    if old < length then .error (.refused .invalidArgument)
    else
      let freed ← Window.read inode.pointers (blocksToHold length) inode.blockCount
      let pointers ← Window.write inode.pointers (blocksToHold length)
        (List.replicate freed.length 0)
      let store ← Effect.storeInode v.superblock id
        { inode with pointers := pointers, size := Int32.ofNat length }
      return ⟨(), store :: Effect.deallocate freed⟩
  else .error (.refused .isADirectory)

def truncate (v : Volume) (path : String) (length : Int) : Query (Update Unit) :=
  if length < 0 then Query.refuse .invalidArgument
  else do
    let (id, inode) ← v.locate path 0
    v.shrinkFile id inode length.toNat

end Volume

end BlockFS
