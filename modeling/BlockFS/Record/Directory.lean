import BlockFS.Block
import BlockFS.LittleEndian
import BlockFS.Name

/-!
Directories: a block of `slotCount` slots, each free or holding the name and the inode number of an
entry. Slots are never moved, so free ones may lie between used ones, and a free slot keeps the
bytes of the entry that was removed from it.
-/

set_option autoImplicit false
set_option relaxedAutoImplicit false

namespace BlockFS

/-- A slot. Its first word holds the bit that says whether it is used and, above it, an inode number
of 31 bits. -/
structure Slot where
  used : Bool
  inode : UInt32
  name : Vector UInt8 nameField
  deriving DecidableEq

namespace Slot

def blank : Slot := ⟨false, 0, Vector.replicate nameField 0⟩

def entry (inode : UInt32) (name : Name) : Slot := ⟨true, inode, name.toField⟩

def rename (s : Slot) (name : Name) : Slot := { s with name := name.toField }

/-- The slot is no longer used; all its other bytes stay. -/
def release (s : Slot) : Slot := { s with used := false }

def storedName (s : Slot) : Name := Name.beforeNul s.name.toList

/-- The stored name is the given one in canonical form. -/
def isNamed (s : Slot) (name : Name) : Bool := s.storedName == name.canonical

def encode (s : Slot) : Vector UInt8 slotSize :=
  LittleEndian.bytes 4 (2 * s.inode.toNat + s.used.toNat) ++ s.name

def decode (record : Vector UInt8 slotSize) : Slot where
  used := LittleEndian.word record 0 4 % 2 == 1
  inode := UInt32.ofNat (LittleEndian.word record 0 4 / 2)
  name := record.extract 4 slotSize

def ofBuffer (buffer : List UInt8) : Except Failure Slot :=
  if h : (buffer.take slotSize).length = slotSize then
    .ok (decode ⟨(buffer.take slotSize).toArray, by simpa using h⟩)
  else .error .outOfBounds

def intoBuffer (s : Slot) (buffer : List UInt8) : Except Failure (List UInt8) :=
  if slotSize ≤ buffer.length then .ok (s.encode.toList ++ buffer.drop slotSize)
  else .error .outOfBounds

end Slot

abbrev Directory := Vector Slot slotCount

namespace Directory

def empty : Directory := Vector.replicate slotCount Slot.blank

def encode (d : Directory) : Block := (d.map Slot.encode).flatten

theorem record_lt (slot : Fin slotCount) (k : Fin slotSize) :
    slotSize * slot.val + k.val < blockSize := by
  have hslot : slot.val < 128 := slot.isLt
  have hk : k.val < 32 := k.isLt
  show 32 * slot.val + k.val < 4096
  omega

def record (block : Block) (slot : Fin slotCount) : Vector UInt8 slotSize :=
  Vector.ofFn fun k => block.get ⟨slotSize * slot.val + k.val, record_lt slot k⟩

def decode (block : Block) : Directory := Vector.ofFn fun slot => Slot.decode (record block slot)

/-- Bytes of the whole slots in a buffer of the given length. -/
def covered (length : Nat) : Nat := min (length / slotSize) slotCount * slotSize

/-- The slots that are whole in a buffer; all others are blank. -/
def ofBuffer (buffer : List UInt8) : Directory :=
  decode (Block.padded (buffer.take (covered buffer.length)))

/-- A buffer with the slots that are whole in it written over its front. -/
def intoBuffer (d : Directory) (buffer : List UInt8) : List UInt8 :=
  d.encode.toList.take (covered buffer.length) ++ buffer.drop (covered buffer.length)

/-- The first used slot of the given name. -/
def find (d : Directory) (name : Name) : Option (Fin slotCount) :=
  d.findFinIdx? fun slot => slot.used && slot.isNamed name

def firstUnused (d : Directory) : Option (Fin slotCount) := d.findFinIdx? fun slot => !slot.used

/-- No slot is used, at whatever position. -/
def isEmpty (d : Directory) : Bool := d.all fun slot => !slot.used

def entries (d : Directory) : List Slot := d.toList.filter fun slot => slot.used

def put (d : Directory) (position : Fin slotCount) (slot : Slot) : Directory :=
  d.set position.val slot position.isLt

def modify (d : Directory) (position : Nat) (f : Slot → Slot) : Except Failure Directory := do
  let slot ← Window.get d position
  Window.set d position (f slot)

end Directory

end BlockFS
