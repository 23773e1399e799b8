import BlockFS.Device.Query

/-!
The allocation bitmap: one bit for each block, set when the block is in use. The map is a single
block and holds `maxDiskBlocks` bits; a bitmap for more blocks than that fails with `outOfBounds`
when a bit past the map is wanted.
-/

set_option autoImplicit false
set_option relaxedAutoImplicit false

namespace BlockFS

/-- The map of used blocks and the number of blocks it is for. -/
structure Bitmap where
  map : Block
  blocks : UInt32
  deriving DecidableEq

namespace Bitmap

def load (blocks : UInt32) : Query Bitmap := do
  let map ← Query.block bitmapId
  return ⟨map, blocks⟩

def bit (map : Block) (index : Nat) : Except Failure Bool := do
  let byte ← Window.get map (index / 8)
  return byte.toNat.testBit (index % 8)

/-- The bit at an index is set; bits past the map are not. -/
def isSet (map : Block) (index : Nat) : Bool :=
  match bit map index with
  | .ok used => used
  | .error _ => false

def withBit (byte : UInt8) (position : Nat) (used : Bool) : UInt8 :=
  if used then byte ||| (1 <<< UInt8.ofNat position) else byte &&& ~~~(1 <<< UInt8.ofNat position)

def setBit (map : Block) (index : Nat) (used : Bool) : Except Failure Block := do
  let byte ← Window.get map (index / 8)
  Window.set map (index / 8) (withBit byte (index % 8) used)

/-- A block past the last one is never free. -/
def isFree (b : Bitmap) (id : UInt32) : Except Failure Bool :=
  if b.blocks ≤ id then .ok false
  else do
    let used ← bit b.map id.toNat
    return !used

/-- Marks a block used or free; one past the last is refused. -/
def mark (id : UInt32) (used : Bool) : EStateM Failure Bitmap Unit := fun b =>
  if b.blocks ≤ id then .error (.refused .io) b
  else
    match setBit b.map id.toNat used with
    | .ok map => .ok () { b with map := map }
    | .error failure => .error failure b

def markInOrder (used : Bool) : List UInt32 → EStateM Failure Bitmap Unit
  | [] => pure ()
  | id :: rest => do
    mark id used
    markInOrder used rest

/-- Marks blocks used or free. If one of them is past the last block, none is marked. -/
def markEach (ids : List UInt32) (used : Bool) : EStateM Failure Bitmap Unit := fun b =>
  if ids.any fun id => b.blocks ≤ id then .error (.refused .io) b else markInOrder used ids b

def firstFitFrom (b : Bitmap) : (remaining wanted index : Nat) → Except Failure (List UInt32)
  | _, 0, _ => .ok []
  | 0, _ + 1, _ => .error (.refused .noSpace)
  | remaining + 1, wanted + 1, index => do
    let free ← b.isFree (UInt32.ofNat index)
    if free then
      let rest ← firstFitFrom b remaining wanted (index + 1)
      return UInt32.ofNat index :: rest
    else firstFitFrom b remaining (wanted + 1) (index + 1)

/-- No list of this many blocks is handed out: at four bytes a block, its length in bytes would
leave a signed word of 64 bits. -/
abbrev requestLimit : Nat := 2305843009213693952

/-- The first `wanted` free blocks from `start` on, refused if there are fewer and overflowing if so
many could never be listed. None is marked. -/
def firstFit (b : Bitmap) (start : UInt32) (wanted : Nat) : Except Failure (List UInt32) :=
  if requestLimit ≤ wanted then .error .overflow
  else b.firstFitFrom (b.blocks.toNat - start.toNat) wanted start.toNat

def usedFrom (b : Bitmap) (start : UInt32) : Except Failure Nat :=
  if start < b.blocks ∧ maxDiskBlocks < b.blocks.toNat then .error .outOfBounds
  else .ok ((List.range' start.toNat (b.blocks.toNat - start.toNat)).countP (isSet b.map))

def save (b : Bitmap) : EStateM Failure Device Unit := Device.write bitmapId b.map

end Bitmap

end BlockFS
