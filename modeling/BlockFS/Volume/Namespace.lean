import BlockFS.Volume.Effect

/-!
Operations on names: creating, deleting and renaming the entries of directories.
-/

set_option autoImplicit false
set_option relaxedAutoImplicit false

namespace BlockFS.Volume

/-- Creates a file or a directory and answers its inode number. The inode is written first, then the
slot that names it, then the blank slots of a new directory; the blocks are marked last. -/
def create (v : Volume) (now : UInt32) (text : String) (permissions : UInt32) (type : FileType)
    (owner : Owner) : Query (Update UInt32) := do
  let path ← Path.ofString text
  let some name := path.getLast? | Query.refuse .alreadyExists
  let parentId ← v.superblock.reach path 1
  let parent ← v.superblock.loadInode parentId
  let slots ← parent.slots
  if (slots.find name).isSome then Query.refuse .alreadyExists
  else
    let some position := slots.firstUnused | Query.refuse .noSpace
    let blocks ← v.bitmap.firstFit reservedBlocks type.blockCount
    let some id := blocks[0]? | Query.fail .outOfBounds
    let inode := Inode.fresh type permissions owner now blocks[1]?
    let storeInode ← Effect.storeInode v.superblock id inode
    let storeSlots := Effect.storeSlots parent (slots.put position (Slot.entry id name))
    let storeBlank ← match type, blocks[1]? with
      | .regular, _ => pure []
      | .directory, some block => pure [Effect.store block Block.zero]
      | .directory, none => Query.fail .outOfBounds
    return ⟨id, storeInode :: storeSlots :: (storeBlank ++ Effect.allocate blocks)⟩

/-- Frees the slot of a path in its parent directory and answers the inode number that it held. -/
def detach (v : Volume) (text : String) : Query (Update UInt32) := do
  let path ← Path.ofString text
  let some name := path.getLast? | Query.refuse .invalidArgument
  let (_, parent) ← v.locate text 1
  let slots ← parent.slots
  let some position := slots.find name | Query.refuse .notFound
  let slot := slots.get position
  return ⟨slot.inode, [Effect.storeSlots parent (slots.put position slot.release)]⟩

/-- Deletes a file that is not a directory, then gives back its blocks. -/
def deleteFile (v : Volume) (path : String) : Query (Update Unit) := do
  let (id, inode) ← v.locate path 0
  if inode.isDirectory then Query.refuse .isADirectory
  else
    let _ ← inode.boundedLength
    let blocks ← inode.blocks
    let detached ← v.detach path
    return ⟨(), detached.effects ++ Effect.deallocate (blocks ++ [id])⟩

/-- Deletes a directory without entries, other than the root, then gives back its blocks. -/
def deleteDirectory (v : Volume) (path : String) : Query (Update Unit) := do
  let (id, inode) ← v.locate path 0
  if id = rootId then Query.refuse .invalidArgument
  else
    let slots ← inode.slots
    if slots.isEmpty then
      let detached ← v.detach path
      return ⟨(), detached.effects ++ Effect.deallocate [id, inode.slotsBlock]⟩
    else Query.refuse .notEmpty

/-- Renames an entry within its directory. Nothing may have the new name. -/
def rename (v : Volume) (source target : String) : Query (Update Unit) := do
  let _ ← v.locate source 0
  match ← (v.locate target 0).attempt with
  | .ok _ => Query.refuse .alreadyExists
  | .error (.refused .notFound) =>
    let sourcePath ← Path.ofString source
    let targetPath ← Path.ofString target
    let some oldName := sourcePath.getLast? | Query.refuse .invalidArgument
    let some newName := targetPath.getLast? | Query.refuse .invalidArgument
    if sourcePath.dropLast ≠ targetPath.dropLast then Query.refuse .invalidArgument
    else
      let (_, parent) ← v.locate source 1
      let slots ← parent.slots
      let some position := slots.find oldName | Query.refuse .notFound
      let renamed := slots.put position ((slots.get position).rename newName)
      return ⟨(), [Effect.storeSlots parent renamed]⟩
  | .error failure => Query.fail failure

end BlockFS.Volume
