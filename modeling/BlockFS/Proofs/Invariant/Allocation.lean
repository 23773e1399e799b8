import BlockFS.Proofs.Invariant.Formatted

/-!
Allocation is exact: in every state that calls lead to on a device that does not fail, the inodes of
the tree are well-formed and lie inside the disk, no block belongs to two places of the tree, and
the bits that are set are those of the blocks of the tree and of the two in front of it.
-/

set_option autoImplicit false
set_option relaxedAutoImplicit false

namespace BlockFS

namespace Content

variable {c : Content} {diskSize : UInt32}

/-- What allocation promises about a content: about the entries of the directories of the tree,
about the sizes and the pointers of its inodes, and about the bitmap. -/
structure ExactlyAllocated (c : Content) (diskSize : UInt32) : Prop where
  root : (c.disk.inode rootId).isDirectory = true ∧
    (c.disk.inode rootId).slotsBlock = Volume.rootSlotsId
  entry : ∀ {directory child k}, c.disk.Reachable directory → c.disk.Links directory k child →
    firstFreeId ≤ child ∧ child < diskSize ∧
      ((c.disk.inode child).mode &&& typeMask = regularBits ∨
        (c.disk.inode child).mode &&& typeMask = directoryBits)
  directory_size : ∀ {id}, c.disk.Reachable id → (c.disk.inode id).isDirectory = true →
    (c.disk.inode id).size.toInt = (blockSize : Nat)
  file_size : ∀ {id}, c.disk.Reachable id → (c.disk.inode id).isRegular = true →
    0 ≤ (c.disk.inode id).size.toInt ∧ (c.disk.inode id).size.toInt ≤ (maxFileSize : Nat)
  unused_pointer : ∀ {id} (k : Fin pointerCount), c.disk.Reachable id →
    blocksToHold (c.disk.inode id).length ≤ k.val → (c.disk.inode id).pointers.get k = 0
  used_pointer : ∀ {id} (k : Fin pointerCount), c.disk.Reachable id → id ≠ rootId →
    k.val < blocksToHold (c.disk.inode id).length →
      firstFreeId ≤ (c.disk.inode id).pointers.get k ∧ (c.disk.inode id).pointers.get k < diskSize
  distinct : ∀ {place place' block}, c.disk.Refers place block → c.disk.Refers place' block →
    place = place'
  marked : ∀ bit : Nat, Bitmap.isSet c.volume.bitmap.map bit = true ↔
    bit = 0 ∨ bit = 1 ∨ ∃ place block, c.disk.Refers place block ∧ block.toNat = bit

private theorem isSet_iff_inUse (h : c.Sound diskSize) (bit : Nat) :
    Bitmap.isSet c.volume.bitmap.map bit = true ↔
      ∃ block, c.disk.InUse block ∧ block.toNat = bit := by
  constructor
  · intro hset
    have hlimit : bit < maxDiskBlocks := by
      apply Nat.lt_of_not_le
      intro hge
      rw [Bitmap.isSet_of_ge _ hge] at hset
      cases hset
    have hword : (UInt32.ofNat bit).toNat = bit :=
      UInt32.toNat_ofNat_of_lt' (Nat.lt_trans hlimit (by decide))
    refine ⟨UInt32.ofNat bit, (h.tracks.marked _).mp ?_, hword⟩
    rwa [hword]
  · rintro ⟨block, hused, rfl⟩
    exact (h.tracks.marked block).mpr hused

theorem Sound.exactlyAllocated (h : c.Sound diskSize) : c.ExactlyAllocated diskSize where
  root := ⟨h.mounted.consistent.root_directory, h.mounted.consistent.root_slots⟩
  entry {directory child k} hdirectory hlink := by
    obtain ⟨hlow, hhigh⟩ := h.mounted.consistent.inside (Disk.refers_slot hdirectory hlink) nofun
      nofun
    refine ⟨hlow, hhigh, ?_⟩
    rw [← Inode.isRegular_iff, ← Inode.isDirectory_iff]
    exact (h.mounted.consistent.formed (hdirectory.child hlink)).typed.symm
  directory_size hid := (h.mounted.consistent.formed hid).directory_size
  file_size hid _ :=
    ⟨(h.mounted.consistent.formed hid).nonneg, (h.mounted.consistent.formed hid).bounded⟩
  unused_pointer k hid := (h.mounted.consistent.formed hid).unused k
  used_pointer {id} k hid hroot hk := by
    have hheld : k.val < (c.disk.inode id).held := by
      rwa [h.mounted.consistent.held_eq hid, (h.mounted.consistent.formed hid).blockCount]
    refine h.mounted.consistent.inside (Disk.refers_pointer hid hheld) nofun fun heq => hroot ?_
    injection heq
  distinct := h.mounted.consistent.distinct
  marked bit := by
    rw [isSet_iff_inUse h]
    constructor
    · rintro ⟨block, rfl | rfl | ⟨place, hplace⟩, rfl⟩
      · exact .inl rfl
      · exact .inr (.inl rfl)
      · exact .inr (.inr ⟨place, block, hplace, rfl⟩)
    · rintro (rfl | rfl | ⟨place, block, hplace, rfl⟩)
      · exact ⟨superblockId, .inl rfl, rfl⟩
      · exact ⟨bitmapId, .inr (.inl rfl), rfl⟩
      · exact ⟨block, Disk.inUse_of_refers hplace, rfl⟩

end Content

namespace FileSystem

/-- Whatever calls are made, with whatever arguments, allocation stays exact. -/
theorem Reached.allocation_exact {diskSize : UInt32} {fs : FileSystem}
    (h : Reached diskSize fs) : fs.content.ExactlyAllocated diskSize :=
  h.sound.2.exactlyAllocated

/-- A directory that is created in a new file system. -/
theorem allocation_exact_after_create : ∃ volume device,
    Device.format 16 0 (Device.ofDisk (Disk.blank 16)) = .ok volume device ∧
      ((FileSystem.mk device volume).after 1
        (.create "/a" 0o755 .directory ⟨0, 0⟩)).content.ExactlyAllocated 16 := by
  obtain ⟨volume, device, hformat⟩ := Device.exists_formatted_blank
  have hfaults : (Device.ofDisk (Disk.blank 16)).faults = Faults.none := rfl
  exact ⟨volume, device, hformat,
    Reached.allocation_exact (.called 1 _ (.formatted hfaults hformat))⟩

end FileSystem

end BlockFS
