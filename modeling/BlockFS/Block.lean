import BlockFS.Layout
import BlockFS.Window

/-!
Blocks, the unit of transfer of a device, and the buffers they are cut from and copied into.
-/

set_option autoImplicit false
set_option relaxedAutoImplicit false

namespace BlockFS

abbrev Block := Vector UInt8 blockSize

namespace Block

def zero : Block := Vector.replicate blockSize 0

/-- The block that begins with the given bytes; zeros fill it up, and bytes past its end are
dropped. -/
def padded (bytes : List UInt8) : Block :=
  ⟨((bytes ++ List.replicate blockSize 0).take blockSize).toArray, by simp⟩

def ofBuffer (buffer : List UInt8) : Except Failure Block :=
  if h : (buffer.take blockSize).length = blockSize then
    .ok ⟨(buffer.take blockSize).toArray, by simpa using h⟩
  else .error .outOfBounds

/-- A buffer with the block copied over its front; the rest of the buffer stays as it was. -/
def intoBuffer (block : Block) (buffer : List UInt8) : Except Failure (List UInt8) :=
  if blockSize ≤ buffer.length then .ok (block.toList ++ buffer.drop blockSize)
  else .error .outOfBounds

/-- The whole blocks of a buffer, in order; a shorter rest is left out. -/
def chunks (buffer : List UInt8) : List Block :=
  if h : (buffer.take blockSize).length = blockSize then
    ⟨(buffer.take blockSize).toArray, by simpa using h⟩ :: chunks (buffer.drop blockSize)
  else []
termination_by buffer.length
decreasing_by
  simp only [List.length_take] at h
  simp only [List.length_drop]
  unfold blockSize at *
  omega

theorem padded_toList (block : Block) : padded block.toList = block := by
  simp [padded, Vector.toList]

end Block

end BlockFS
