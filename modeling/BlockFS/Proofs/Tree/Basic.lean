import BlockFS.Proofs.Names
import BlockFS.Proofs.Tree.Inode
import BlockFS.Volume.Format

/-!
The tree of files on a disk. Slots lead from the root to inodes, and inodes point at blocks;
`Refers` lists every place from which the tree refers to a block. A disk is `Consistent` when its
tree is one: no block is referred to from two places, all of them lie behind the blocks of an empty
file system, inodes are well-formed, and the names of a directory are distinct.
-/

set_option autoImplicit false
set_option relaxedAutoImplicit false

namespace BlockFS

/-- The first block that is free in an empty file system. -/
abbrev firstFreeId : UInt32 := 4

/-- The number of pointers of an inode that lead to blocks of its own. -/
def Inode.held (i : Inode) : Nat := if i.isDirectory then 1 else i.blockCount

/-- Where the tree can refer to a block: at its root, in a slot, in a pointer. -/
inductive Place where
  | root
  | slot (directory : UInt32) (position : Fin slotCount)
  | pointer (inode : UInt32) (index : Fin pointerCount)
  deriving DecidableEq

namespace Disk

def inode (d : Disk) (id : UInt32) : Inode := Inode.decode (d.block id)

def slots (d : Disk) (id : UInt32) : Directory := Directory.decode (d.block (d.inode id).slotsBlock)

structure Links (d : Disk) (parent : UInt32) (k : Fin slotCount) (child : UInt32) : Prop where
  directory : (d.inode parent).isDirectory = true
  used : ((d.slots parent).get k).used = true
  inode : ((d.slots parent).get k).inode = child

/-- The inodes that are reached from the root, and by how many slots. -/
inductive AtDepth (d : Disk) : Nat → UInt32 → Prop
  | root : AtDepth d 0 rootId
  | child {depth : Nat} {parent child : UInt32} {k : Fin slotCount}
      (hparent : AtDepth d depth parent) (hlink : d.Links parent k child) :
      AtDepth d (depth + 1) child

def Reachable (d : Disk) (id : UInt32) : Prop := ∃ depth, d.AtDepth depth id

def Refers (d : Disk) : Place → UInt32 → Prop
  | .root, id => id = rootId
  | .slot directory k, id => d.Reachable directory ∧ d.Links directory k id
  | .pointer inode k, id =>
    d.Reachable inode ∧ k.val < (d.inode inode).held ∧ (d.inode inode).pointers.get k = id

/-- A block of the file system behind those of an empty one that the tree does not refer to. -/
structure Spare (d : Disk) (diskSize block : UInt32) : Prop where
  low : firstFreeId ≤ block
  high : block < diskSize
  unreferred : ∀ place, ¬ d.Refers place block

abbrev slotsPlace (id : UInt32) : Place := .pointer id ⟨0, pointerCount_pos⟩

structure Consistent (d : Disk) (diskSize : UInt32) : Prop where
  formed : ∀ {id}, d.Reachable id → (d.inode id).WellFormed
  root_directory : (d.inode rootId).isDirectory = true
  root_slots : (d.inode rootId).slotsBlock = Volume.rootSlotsId
  inside : ∀ {place id}, d.Refers place id → place ≠ .root → place ≠ slotsPlace rootId →
    firstFreeId ≤ id ∧ id < diskSize
  distinct : ∀ {place place' id}, d.Refers place id → d.Refers place' id → place = place'
  named : ∀ {id k child}, d.Reachable id → d.Links id k child →
    ∃ name, Path.IsComponent name ∧ ((d.slots id).get k).name = name.toField
  unique : ∀ {id k l child other}, d.Reachable id → d.Links id k child → d.Links id l other →
    ((d.slots id).get k).storedName = ((d.slots id).get l).storedName → k = l
  shallow : ∀ {depth id}, d.AtDepth depth id → depth ≤ maxPathDepth

variable {d d' : Disk} {diskSize : UInt32}

theorem reachable_root : d.Reachable rootId := ⟨0, .root⟩

theorem Reachable.child {parent child : UInt32} {k : Fin slotCount} (h : d.Reachable parent)
    (hlink : d.Links parent k child) : d.Reachable child := by
  obtain ⟨depth, hdepth⟩ := h
  exact ⟨depth + 1, .child hdepth hlink⟩

theorem Reachable.cases {id : UInt32} (h : d.Reachable id) :
    id = rootId ∨ ∃ parent k, d.Reachable parent ∧ d.Links parent k id := by
  obtain ⟨depth, hdepth⟩ := h
  cases hdepth with
  | root => exact .inl rfl
  | child hparent hlink => exact .inr ⟨_, _, ⟨_, hparent⟩, hlink⟩

theorem Links.functional {parent child other : UInt32} {k : Fin slotCount}
    (h : d.Links parent k child) (h' : d.Links parent k other) : child = other :=
  h.inode.symm.trans h'.inode

theorem refers_functional {place : Place} {id id' : UInt32} (h : d.Refers place id)
    (h' : d.Refers place id') : id = id' := by
  cases place with
  | root => exact h.trans h'.symm
  | slot directory k => exact h.2.functional h'.2
  | pointer inode k => exact h.2.2.symm.trans h'.2.2

theorem Reachable.referred {id : UInt32} (h : d.Reachable id) :
    ∃ place, d.Refers place id ∧ ∀ inode k, place ≠ .pointer inode k := by
  rcases h.cases with rfl | ⟨parent, k, hparent, hlink⟩
  · exact ⟨.root, rfl, fun _ _ => nofun⟩
  · exact ⟨.slot parent k, ⟨hparent, hlink⟩, fun _ _ => nofun⟩

theorem Spare.not_reachable {block : UInt32} (h : d.Spare diskSize block) :
    ¬ d.Reachable block := by
  intro hreachable
  obtain ⟨place, hplace, -⟩ := hreachable.referred
  exact h.unreferred place hplace

theorem refers_pointer {id : UInt32} {k : Fin pointerCount} (h : d.Reachable id)
    (hk : k.val < (d.inode id).held) :
    d.Refers (.pointer id k) ((d.inode id).pointers.get k) := ⟨h, hk, rfl⟩

theorem refers_root : d.Refers .root rootId := rfl

theorem refers_slot {directory child : UInt32} {k : Fin slotCount} (h : d.Reachable directory)
    (hlink : d.Links directory k child) : d.Refers (.slot directory k) child := ⟨h, hlink⟩

theorem refers_slotsBlock {id : UInt32} (h : d.Reachable id)
    (hdirectory : (d.inode id).isDirectory = true) :
    d.Refers (slotsPlace id) (d.inode id).slotsBlock :=
  ⟨h, by rw [Inode.held, if_pos hdirectory]; exact Nat.one_pos, rfl⟩

namespace Consistent

variable (h : d.Consistent diskSize)

include h

theorem ne_pointer {id inode block : UInt32} {k : Fin pointerCount} (hid : d.Reachable id)
    (hblock : d.Refers (.pointer inode k) block) : id ≠ block := by
  rintro rfl
  obtain ⟨place, hplace, hne⟩ := hid.referred
  exact hne inode k (h.distinct hplace hblock)

theorem ne_slotsBlock {id directory : UInt32} (hid : d.Reachable id)
    (hreachable : d.Reachable directory) (hdirectory : (d.inode directory).isDirectory = true) :
    id ≠ (d.inode directory).slotsBlock :=
  h.ne_pointer hid (refers_slotsBlock hreachable hdirectory)

theorem slotsBlock_injective {id id' : UInt32} (hid : d.Reachable id) (hid' : d.Reachable id')
    (hdirectory : (d.inode id).isDirectory = true) (hdirectory' : (d.inode id').isDirectory = true)
    (heq : (d.inode id).slotsBlock = (d.inode id').slotsBlock) : id = id' := by
  have hrefers := refers_slotsBlock hid' hdirectory'
  rw [← heq] at hrefers
  have hplace := h.distinct (refers_slotsBlock hid hdirectory) hrefers
  injection hplace

theorem link_injective {parent parent' child : UInt32} {k k' : Fin slotCount}
    (hparent : d.Reachable parent) (hparent' : d.Reachable parent') (hlink : d.Links parent k child)
    (hlink' : d.Links parent' k' child) : parent = parent' ∧ k = k' := by
  have hplace := h.distinct (refers_slot hparent hlink) (refers_slot hparent' hlink')
  cases hplace
  exact ⟨rfl, rfl⟩

theorem not_links_root {parent : UInt32} {k : Fin slotCount} (hparent : d.Reachable parent) :
    ¬ d.Links parent k rootId := by
  intro hlink
  have hplace := h.distinct (refers_slot hparent hlink) refers_root
  cases hplace

theorem depth_unique {depth depth' : Nat} {id : UInt32} (hid : d.AtDepth depth id)
    (hid' : d.AtDepth depth' id) : depth = depth' := by
  induction hid generalizing depth' with
  | root =>
    cases hid' with
    | root => rfl
    | child hparent hlink => exact absurd hlink (h.not_links_root ⟨_, hparent⟩)
  | child hparent hlink ih =>
    cases hid' with
    | root => exact absurd hlink (h.not_links_root ⟨_, hparent⟩)
    | child hparent' hlink' =>
      obtain ⟨rfl, -⟩ := h.link_injective ⟨_, hparent⟩ ⟨_, hparent'⟩ hlink hlink'
      rw [ih hparent']

theorem bounds (hsize : firstFreeId ≤ diskSize) {place : Place} {id : UInt32}
    (hplace : d.Refers place id) : rootId ≤ id ∧ id < diskSize := by
  by_cases hroot : place = .root
  · subst hroot
    rw [show id = rootId from hplace]
    exact ⟨by decide, UInt32.lt_of_lt_of_le (by decide) hsize⟩
  · by_cases hslots : place = slotsPlace rootId
    · subst hslots
      have hid : id = Volume.rootSlotsId :=
        (refers_functional hplace (refers_slotsBlock reachable_root h.root_directory)).trans
          h.root_slots
      rw [hid]
      exact ⟨by decide, UInt32.lt_of_lt_of_le (by decide) hsize⟩
    · obtain ⟨hlow, hhigh⟩ := h.inside hplace hroot hslots
      exact ⟨UInt32.le_trans (by decide) hlow, hhigh⟩

theorem reachable_bounds (hsize : firstFreeId ≤ diskSize) {id : UInt32} (hid : d.Reachable id) :
    rootId ≤ id ∧ id < diskSize := by
  obtain ⟨place, hplace, -⟩ := hid.referred
  exact h.bounds hsize hplace

theorem held_eq {id : UInt32} (hid : d.Reachable id) :
    (d.inode id).held = (d.inode id).blockCount := by
  unfold Inode.held
  split
  · exact ((h.formed hid).directory_blockCount ‹_›).symm
  · rfl

end Consistent

end Disk

end BlockFS
