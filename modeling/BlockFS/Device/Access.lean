import BlockFS.Device.Disk

/-!
A device: a disk behind an interface that may fail. A plan of faults decides each access from the
number of accesses and of completed writes before it, so every pattern of failures is some plan. An
access that fails leaves the disk as it was.
-/

set_option autoImplicit false
set_option relaxedAutoImplicit false

namespace BlockFS

/-- Which accesses fail. The numbers count from the moment the plan was set. -/
structure Faults where
  read : (accesses : Nat) → (id : UInt32) → Bool
  write : (accesses completed : Nat) → (id : UInt32) → Bool
  flush : Bool

namespace Faults

def none : Faults := ⟨fun _ _ => false, fun _ _ _ => false, false⟩

end Faults

structure Device where
  disk : Disk
  faults : Faults
  accesses : Nat
  completed : Nat
  flushes : Nat

namespace Device

def ofDisk (disk : Disk) : Device := ⟨disk, Faults.none, 0, 0, 0⟩

def withFaults (d : Device) (faults : Faults) : Device :=
  { d with faults := faults, accesses := 0, completed := 0 }

def RefusesRead (d : Device) (id : UInt32) : Prop :=
  d.disk.size ≤ id.toNat ∨ d.faults.read d.accesses id = true

def RefusesWrite (d : Device) (id : UInt32) : Prop :=
  d.disk.size ≤ id.toNat ∨ d.faults.write d.accesses d.completed id = true

instance (d : Device) (id : UInt32) : Decidable (d.RefusesRead id) := instDecidableOr

instance (d : Device) (id : UInt32) : Decidable (d.RefusesWrite id) := instDecidableOr

def read (id : UInt32) : EStateM Failure Device Block := fun d =>
  if d.RefusesRead id then .error (.refused .io) { d with accesses := d.accesses + 1 }
  else .ok (d.disk.block id) { d with accesses := d.accesses + 1 }

def write (id : UInt32) (contents : Block) : EStateM Failure Device Unit := fun d =>
  if d.RefusesWrite id then .error (.refused .io) { d with accesses := d.accesses + 1 }
  else
    .ok () { d with
      disk := d.disk.set id contents
      accesses := d.accesses + 1
      completed := d.completed + 1 }

theorem read_of_refused {d : Device} {id : UInt32} (h : d.RefusesRead id) :
    read id d = .error (.refused .io) { d with accesses := d.accesses + 1 } := if_pos h

theorem read_of_granted {d : Device} {id : UInt32} (h : ¬ d.RefusesRead id) :
    read id d = .ok (d.disk.block id) { d with accesses := d.accesses + 1 } := if_neg h

theorem write_of_refused {d : Device} {id : UInt32} (h : d.RefusesWrite id) (contents : Block) :
    write id contents d = .error (.refused .io) { d with accesses := d.accesses + 1 } := if_pos h

theorem write_of_granted {d : Device} {id : UInt32} (h : ¬ d.RefusesWrite id) (contents : Block) :
    write id contents d = .ok () { d with
      disk := d.disk.set id contents
      accesses := d.accesses + 1
      completed := d.completed + 1 } := if_neg h

/-- Writes bytes over part of a block from a position on. The block is read first, unless all of it
is replaced. -/
def overlay (id : UInt32) (start : Nat) (bytes : List UInt8) : EStateM Failure Device Unit := do
  let old ← if start = 0 ∧ bytes.length = blockSize then pure Block.zero else read id
  let new ← Window.write old start bytes
  write id new

def flush : EStateM Failure Device Unit := fun d =>
  if d.faults.flush then .error (.refused .io) d else .ok () { d with flushes := d.flushes + 1 }

/-- Writes consecutive blocks, in order, up to the first that fails or whose number is no word. -/
def writeBlocks (number : Nat) : List Block → EStateM Failure Device Unit
  | [] => pure ()
  | contents :: rest =>
    if number < UInt32.size then do
      write (UInt32.ofNat number) contents
      writeBlocks (number + 1) rest
    else fun d => .error .overflow d

end Device

/-- A caller's buffer after a transfer, and the number of bytes transferred or why it ended. What
was transferred before a failure is in the buffer. -/
structure Filled where
  outcome : Except Failure Nat
  buffer : List UInt8

namespace Device

/-- Reads consecutive blocks over the whole blocks of a buffer, in order, up to the first that
fails or whose number is no word; `count` is the number of whole blocks. -/
def readBlocks (number : Nat) (buffer : List UInt8) : (count : Nat) → StateM Device Filled
  | 0 => fun d => (⟨.ok 0, buffer⟩, d)
  | count + 1 => fun d =>
    if number < UInt32.size then
      match read (UInt32.ofNat number) d with
      | .error failure d => (⟨.error failure, buffer⟩, d)
      | .ok contents d =>
        let (rest, d) := readBlocks (number + 1) (buffer.drop blockSize) count d
        (⟨rest.outcome.map (blockSize + ·), contents.toList ++ rest.buffer⟩, d)
    else (⟨.error .overflow, buffer⟩, d)

end Device

end BlockFS
