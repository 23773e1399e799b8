import Std.Data.TreeMap
import BlockFS.Block

/-!
The contents of a device: a number of blocks, all zero until they are written. `block` is the view
of a disk, and `block_set` says what a write does to it.
-/

set_option autoImplicit false
set_option relaxedAutoImplicit false

namespace BlockFS

/-- The blocks of a device; those never written are not kept. -/
structure Disk where
  size : Nat
  written : Std.TreeMap UInt32 Block

namespace Disk

def blank (size : Nat) : Disk := ⟨size, ∅⟩

def block (d : Disk) (id : UInt32) : Block := d.written.getD id Block.zero

def set (d : Disk) (id : UInt32) (contents : Block) : Disk :=
  { d with written := d.written.insert id contents }

@[simp] theorem size_set (d : Disk) (id : UInt32) (contents : Block) :
    (d.set id contents).size = d.size := rfl

theorem block_set (d : Disk) (id k : UInt32) (contents : Block) :
    (d.set id contents).block k = if id = k then contents else d.block k := by
  simp [block, set, Std.TreeMap.getD_insert]

end Disk

end BlockFS
