import BlockFS.Volume.Effect

/-!
Operations on the attributes of a file.
-/

set_option autoImplicit false
set_option relaxedAutoImplicit false

namespace BlockFS

/-- The inode with the permission bits of its mode replaced and all other bits kept. -/
def Inode.withPermissions (i : Inode) (permissions : UInt32) : Inode :=
  { i with mode := (i.mode &&& ~~~permissionMask) ||| (permissions &&& permissionMask) }

namespace Volume

def setPermissions (v : Volume) (path : String) (permissions : UInt32) : Query (Update Unit) := do
  let (id, inode) ← v.locate path 0
  let store ← Effect.storeInode v.superblock id (inode.withPermissions permissions)
  return ⟨(), [store]⟩

def setModified (v : Volume) (path : String) (mtime : UInt32) : Query (Update Unit) := do
  let (id, inode) ← v.locate path 0
  if inode.isRegular then
    let store ← Effect.storeInode v.superblock id { inode with mtime := mtime }
    return ⟨(), [store]⟩
  else Query.refuse .isADirectory

end Volume

end BlockFS
