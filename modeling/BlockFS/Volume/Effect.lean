import BlockFS.Volume.Basic

/-!
What an operation changes. An operation first asks its questions and decides on a list of effects,
and only then are these carried out, in order, up to the first that fails. An operation that fails
while it is carried out leaves the changes of the effects before the one that failed.
-/

set_option autoImplicit false
set_option relaxedAutoImplicit false

namespace BlockFS

/-- One step of carrying out an operation. -/
inductive Effect where
  /-- Writes a block. -/
  | store (id : UInt32) (contents : Block)
  /-- Writes bytes over part of a block; it is read first unless all of it is replaced. -/
  | overlay (id : UInt32) (start : Nat) (bytes : List UInt8)
  /-- Marks blocks used or free in memory. -/
  | mark (blocks : List UInt32) (used : Bool)
  /-- Writes the bitmap to its block. -/
  | saveBitmap
  /-- Counts blocks as taken. -/
  | charge (count : Nat)
  /-- Counts blocks as given back. -/
  | credit (count : Nat)

namespace Effect

/-- Takes free blocks: they are marked, the bitmap is written, and they are counted. -/
def allocate (blocks : List UInt32) : List Effect :=
  [mark blocks true, saveBitmap, charge blocks.length]

/-- Gives blocks back; nothing is done when there are none. -/
def deallocate (blocks : List UInt32) : List Effect :=
  if blocks.isEmpty then [] else [mark blocks false, saveBitmap, credit blocks.length]

def storeInode (sb : Superblock) (id : UInt32) (inode : Inode) : Except Error Effect := do
  sb.checkRange id
  return store id inode.encode

def storeSlots (directory : Inode) (slots : Directory) : Effect :=
  store directory.slotsBlock slots.encode

end Effect

/-- What an operation answers, and what it has to change first. -/
structure Update (α : Type) where
  result : α
  effects : List Effect

/-- A file system in use: the device and what is held in memory. -/
structure FileSystem where
  device : Device
  volume : Volume

namespace FileSystem

def onDevice {α : Type} (action : EStateM Failure Device α) : EStateM Failure FileSystem α :=
  fun fs =>
    match action fs.device with
    | .ok a device => .ok a { fs with device := device }
    | .error failure device => .error failure { fs with device := device }

def onBitmap {α : Type} (action : EStateM Failure Bitmap α) : EStateM Failure FileSystem α :=
  fun fs =>
    match action fs.volume.bitmap with
    | .ok a bitmap => .ok a { fs with volume := { fs.volume with bitmap := bitmap } }
    | .error failure bitmap =>
      .error failure { fs with volume := { fs.volume with bitmap := bitmap } }

def onUsage (change : Usage → Except Failure Usage) : EStateM Failure FileSystem Unit := fun fs =>
  match change fs.volume.usage with
  | .ok usage => .ok () { fs with volume := { fs.volume with usage := usage } }
  | .error failure => .error failure fs

def apply : Effect → EStateM Failure FileSystem Unit
  | .store id contents => onDevice (Device.write id contents)
  | .overlay id start bytes => onDevice (Device.overlay id start bytes)
  | .mark blocks used => onBitmap (Bitmap.markEach blocks used)
  | .saveBitmap => fun fs => onDevice fs.volume.bitmap.save fs
  | .charge count => onUsage fun usage => usage.charge count
  | .credit count => onUsage fun usage => usage.credit count

/-- Carries out effects in order, up to the first that fails. -/
def commit : List Effect → EStateM Failure FileSystem Unit
  | [] => pure ()
  | effect :: rest => do
    apply effect
    commit rest

def ask {α : Type} (question : Volume → Query α) : EStateM Failure FileSystem α := fun fs =>
  onDevice (question fs.volume).run fs

/-- Decides on an update, then carries it out. -/
def transact {α : Type} (plan : Volume → Query (Update α)) : EStateM Failure FileSystem α := do
  let update ← ask plan
  commit update.effects
  return update.result

end FileSystem

end BlockFS
