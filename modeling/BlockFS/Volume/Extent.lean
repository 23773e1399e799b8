import BlockFS.Volume.Effect

/-!
Ranges of bytes of a file, laid out over its blocks. `clip` is the part of one block that belongs to
a range, and `extent` the list of all such parts in order; `fill` and `spread` move bytes between
them and a buffer.
-/

set_option autoImplicit false
set_option relaxedAutoImplicit false

namespace BlockFS

/-- The part of the block at an index that lies in `[start, stop)`, as positions within the block;
out of bounds if the range ends before the block begins. -/
def clip (index start stop : Nat) : Except Failure (Nat × Nat) :=
  if index * blockSize ≤ stop then
    .ok (max start (index * blockSize) - index * blockSize,
      min stop (index * blockSize + blockSize) - index * blockSize)
  else .error .outOfBounds

/-- Consecutive bytes of one block. -/
structure Segment where
  block : UInt32
  lo : Nat
  hi : Nat
  deriving DecidableEq

namespace Inode

/-- The segments of the blocks at the given indices that hold the bytes of `[start, stop)`. -/
def segments (i : Inode) (start stop : Nat) : List Nat → Except Failure (List Segment)
  | [] => return []
  | index :: rest => do
    let (lo, hi) ← clip index start stop
    let block ← Window.get i.pointers index
    let others ← i.segments start stop rest
    return ⟨block, lo, hi⟩ :: others

def extent (i : Inode) (start stop : Nat) : Except Failure (List Segment) :=
  let first := start / blockSize
  let last := (stop - 1) / blockSize
  i.segments start stop (List.range' first (last + 1 - first))

end Inode

def front (buffer : List UInt8) (count : Nat) : Except Failure (List UInt8) :=
  if (buffer.take count).length = count then .ok (buffer.take count) else .error .outOfBounds

/-- Reads segments into a buffer, one behind the other, up to the first that cannot be read. -/
def fill : List Segment → List UInt8 → StateM Device Filled
  | [], buffer => fun device => (⟨.ok 0, buffer⟩, device)
  | segment :: rest, buffer => fun device =>
    match Device.read segment.block device with
    | .error failure device => (⟨.error failure, buffer⟩, device)
    | .ok contents device =>
      match (do
        let bytes ← Window.read contents segment.lo segment.hi
        let _ ← front buffer bytes.length
        return bytes) with
      | .error failure => (⟨.error failure, buffer⟩, device)
      | .ok bytes =>
        let (others, device) := fill rest (buffer.drop bytes.length) device
        (⟨others.outcome.map (bytes.length + ·), bytes ++ others.buffer⟩, device)

/-- The effects that write bytes to segments, one behind the other. -/
def spread : List Segment → List UInt8 → Except Failure (List Effect)
  | [], _ => return []
  | segment :: rest, bytes => do
    let part ← front bytes (segment.hi - segment.lo)
    let others ← spread rest (bytes.drop (segment.hi - segment.lo))
    return .overlay segment.block segment.lo part :: others

end BlockFS
