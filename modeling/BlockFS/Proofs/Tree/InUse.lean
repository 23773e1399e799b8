import BlockFS.Proofs.Tree.Insert
import Mathlib.Data.List.Nodup

/-!
The blocks in use: the superblock, the bitmap, and every block that the tree refers to. Each kind of
change of the tree adds blocks to them, removes blocks from them or leaves them alone.
-/

set_option autoImplicit false
set_option relaxedAutoImplicit false

namespace BlockFS.Disk

/-- The superblock, the bitmap and the blocks that the tree refers to. -/
def InUse (d : Disk) (block : UInt32) : Prop :=
  block = superblockId ∨ block = bitmapId ∨ ∃ place, d.Refers place block

def released (d : Disk) (id : UInt32) : List UInt32 :=
  if (d.inode id).isDirectory then [id, (d.inode id).slotsBlock] else (d.inode id).ownBlocks ++ [id]

variable {d d' : Disk} {diskSize : UInt32}

theorem released_directory {id : UInt32} (h : (d.inode id).isDirectory = true) :
    d.released id = [id, (d.inode id).slotsBlock] := if_pos h

theorem released_file {id : UInt32} (h : (d.inode id).isDirectory = false) :
    d.released id = (d.inode id).ownBlocks ++ [id] := if_neg (by rw [h]; decide)

theorem mem_released {id block : UInt32} : block ∈ d.released id ↔ block = id ∨
    ∃ k : Fin pointerCount, k.val < (d.inode id).held ∧ (d.inode id).pointers.get k = block := by
  rw [released, Inode.held]
  by_cases hdirectory : (d.inode id).isDirectory = true
  · rw [if_pos hdirectory, if_pos hdirectory, List.mem_cons, List.mem_singleton]
    refine or_congr_right ⟨?_, ?_⟩
    · intro heq
      exact ⟨⟨0, pointerCount_pos⟩, Nat.one_pos, heq.symm⟩
    · rintro ⟨k, hk, heq⟩
      have hzero : k = ⟨0, pointerCount_pos⟩ := Fin.ext (Nat.lt_one_iff.mp hk)
      rw [hzero] at heq
      exact heq.symm
  · rw [if_neg hdirectory, if_neg hdirectory, List.mem_append, List.mem_singleton,
      Inode.mem_ownBlocks, or_comm]

theorem inUse_of_refers {place : Place} {block : UInt32} (h : d.Refers place block) :
    d.InUse block := .inr (.inr ⟨place, h⟩)

theorem Reachable.inUse {id : UInt32} (h : d.Reachable id) : d.InUse id := by
  obtain ⟨place, hplace, -⟩ := h.referred
  exact inUse_of_refers hplace

theorem Spare.not_inUse {block : UInt32} (h : d.Spare diskSize block) : ¬ d.InUse block := by
  have hlow := h.low
  rintro (rfl | rfl | ⟨place, hplace⟩)
  · exact absurd hlow (by decide)
  · exact absurd hlow (by decide)
  · exact h.unreferred place hplace

theorem Consistent.spare_of_not_inUse (h : d.Consistent diskSize) {block : UInt32}
    (hlow : reservedBlocks ≤ block) (hhigh : block < diskSize) (hfree : ¬ d.InUse block) :
    d.Spare diskSize block := by
  refine ⟨?_, hhigh, fun place hplace => hfree (inUse_of_refers hplace)⟩
  have hroot : block ≠ rootId := by
    rintro rfl
    exact hfree reachable_root.inUse
  have hslots : block ≠ Volume.rootSlotsId := by
    rintro rfl
    have hrefers := refers_slotsBlock reachable_root h.root_directory
    rw [h.root_slots] at hrefers
    exact hfree (inUse_of_refers hrefers)
  rw [UInt32.le_iff_toNat_le] at hlow ⊢
  rw [ne_eq, ← UInt32.toNat_inj] at hroot hslots
  have h2 : reservedBlocks.toNat = 2 := rfl
  have h2' : rootId.toNat = 2 := rfl
  have h3 : Volume.rootSlotsId.toNat = 3 := rfl
  have h4 : firstFreeId.toNat = 4 := rfl
  omega

namespace Consistent

variable (h : d.Consistent diskSize) (hsize : firstFreeId ≤ diskSize)

include h hsize

theorem ne_reserved {place : Place} {block : UInt32} (hplace : d.Refers place block) :
    block ≠ superblockId ∧ block ≠ bitmapId := by
  have hlow := (h.bounds hsize hplace).1
  constructor
  · rintro rfl
    exact absurd hlow (by decide)
  · rintro rfl
    exact absurd hlow (by decide)

end Consistent

section

variable (h : d.Consistent diskSize) {id : UInt32} (hid : d.Reachable id)

include h hid

theorem Consistent.refers_pointer_index {index : Nat} (hindex : index < (d.inode id).blockCount) :
    ∃ hk : index < pointerCount,
      d.Refers (.pointer id ⟨index, hk⟩) ((d.inode id).pointer index) := by
  have hk := Nat.lt_of_lt_of_le hindex (d.inode id).blockCount_le
  refine ⟨hk, ?_⟩
  rw [Inode.pointer_eq _ hk]
  exact refers_pointer hid (by rwa [h.held_eq hid])

theorem Consistent.pointer_injective {index other : Nat}
    (hindex : index < (d.inode id).blockCount) (hother : other < (d.inode id).blockCount)
    (heq : (d.inode id).pointer index = (d.inode id).pointer other) : index = other := by
  obtain ⟨hk, hrefers⟩ := h.refers_pointer_index hid hindex
  obtain ⟨hl, hrefers'⟩ := h.refers_pointer_index hid hother
  rw [← heq] at hrefers'
  have hplace := h.distinct hrefers hrefers'
  injection hplace with _ hindices
  exact Fin.mk.inj hindices

theorem Consistent.nodup_ownBlocks : (d.inode id).ownBlocks.Nodup := by
  refine List.Nodup.map_on ?_ List.nodup_range
  intro index hindex other hother heq
  exact h.pointer_injective hid (List.mem_range.mp hindex) (List.mem_range.mp hother) heq

end

theorem Consistent.nodup_released (h : d.Consistent diskSize) {id : UInt32}
    (hid : d.Reachable id) : (d.released id).Nodup := by
  rw [released]
  split
  · have hne := h.ne_slotsBlock hid hid ‹_›
    simpa using hne
  · refine List.Nodup.append (h.nodup_ownBlocks hid) (List.nodup_singleton id) ?_
    intro block hblock hid'
    obtain rfl := List.mem_singleton.mp hid'
    obtain ⟨k, hk, heq⟩ := Inode.mem_ownBlocks.mp hblock
    rw [← h.held_eq hid] at hk
    exact h.ne_pointer hid (refers_pointer hid hk) heq.symm

theorem refers_of_mem_released {id block : UInt32} (hid : d.Reachable id)
    (hblock : block ∈ d.released id) : ∃ place, d.Refers place block := by
  rcases mem_released.mp hblock with rfl | ⟨k, hk, rfl⟩
  · obtain ⟨place, hplace, -⟩ := hid.referred
    exact ⟨place, hplace⟩
  · exact ⟨_, refers_pointer hid hk⟩

theorem SameTree.inUse_iff (h : SameTree d d') {block : UInt32} :
    d'.InUse block ↔ d.InUse block := by
  simp only [InUse, h.refers_iff]

theorem Renames.inUse_iff {directory : UInt32} {position : Fin slotCount} {name : Name}
    (h : Renames d d' directory position name) (hd : d.Consistent diskSize) {block : UInt32} :
    d'.InUse block ↔ d.InUse block := by
  simp only [InUse, h.refers_iff hd]

theorem Releases.inUse_iff {directory child : UInt32} {position : Fin slotCount}
    (h : Releases d d' directory position child) (hd : d.Consistent diskSize)
    (hsize : firstFreeId ≤ diskSize) {block : UInt32} :
    d'.InUse block ↔ d.InUse block ∧ block ∉ d.released child := by
  have hreleased : block ∉ d.released child ↔ block ≠ child ∧
      ∀ k : Fin pointerCount, k.val < (d.inode child).held →
        (d.inode child).pointers.get k ≠ block := by
    rw [mem_released, not_or, not_exists]
    exact and_congr_right fun _ => forall_congr' fun k => not_and
  rw [hreleased]
  have hslot : d.Refers (.slot directory position) child := refers_slot h.relists.reachable h.link
  have hpointer : ∀ k : Fin pointerCount, k.val < (d.inode child).held →
      d.Refers (.pointer child k) ((d.inode child).pointers.get k) :=
    fun k hk => refers_pointer h.child_reachable hk
  constructor
  · rintro (rfl | rfl | ⟨place, hplace⟩)
    · exact ⟨.inl rfl, (hd.ne_reserved hsize hslot).1.symm,
        fun k hk => (hd.ne_reserved hsize (hpointer k hk)).1⟩
    · exact ⟨.inr (.inl rfl), (hd.ne_reserved hsize hslot).2.symm,
        fun k hk => (hd.ne_reserved hsize (hpointer k hk)).2⟩
    · obtain ⟨hold, hne, hne'⟩ := (h.refers_iff hd).mp hplace
      refine ⟨inUse_of_refers hold, ?_, ?_⟩
      · rintro rfl
        exact hne (hd.distinct hold hslot)
      · intro k hk heq
        exact hne' k (hd.distinct hold (heq ▸ hpointer k hk))
  · rintro ⟨rfl | rfl | ⟨place, hplace⟩, hne, hne'⟩
    · exact .inl rfl
    · exact .inr (.inl rfl)
    · refine inUse_of_refers ((h.refers_iff hd).mpr ⟨hplace, ?_, ?_⟩)
      · rintro rfl
        exact hne (refers_functional hplace hslot)
      · rintro k rfl
        exact hne' k hplace.2.1 hplace.2.2

theorem Inserts.inUse_iff {directory child : UInt32} {position : Fin slotCount} {name : Name}
    (h : Inserts d d' diskSize directory position name child) (hd : d.Consistent diskSize)
    {block : UInt32} :
    d'.InUse block ↔ d.InUse block ∨ block = child ∨
      ∃ k : Fin pointerCount, k.val < (d'.inode child).held ∧
        (d'.inode child).pointers.get k = block := by
  constructor
  · rintro (rfl | rfl | ⟨place, hplace⟩)
    · exact .inl (.inl rfl)
    · exact .inl (.inr (.inl rfl))
    · rcases (h.refers_iff hd).mp hplace with hold | ⟨-, rfl⟩ | ⟨k, -, hk, rfl⟩
      · exact .inl (inUse_of_refers hold)
      · exact .inr (.inl rfl)
      · exact .inr (.inr ⟨k, hk, rfl⟩)
  · rintro ((rfl | rfl | ⟨place, hplace⟩) | rfl | ⟨k, hk, rfl⟩)
    · exact .inl rfl
    · exact .inr (.inl rfl)
    · exact inUse_of_refers ((h.refers_iff hd).mpr (.inl hplace))
    · exact (h.child_reachable hd).inUse
    · exact inUse_of_refers (refers_pointer (h.child_reachable hd) hk)

theorem Rewrites.inUse_iff {id : UInt32} {i : Inode} (h : Rewrites d d' id i)
    (hd : d.Consistent diskSize) (hsize : firstFreeId ≤ diskSize) {block : UInt32} :
    d'.InUse block ↔ (d.InUse block ∧ ∀ k : Fin pointerCount, k.val < (d.inode id).held →
        (d.inode id).pointers.get k ≠ block) ∨
      ∃ k : Fin pointerCount, k.val < i.held ∧ i.pointers.get k = block := by
  have hpointer : ∀ k : Fin pointerCount, k.val < (d.inode id).held →
      d.Refers (.pointer id k) ((d.inode id).pointers.get k) :=
    fun k hk => refers_pointer h.reachable hk
  constructor
  · rintro (rfl | rfl | ⟨place, hplace⟩)
    · exact .inl ⟨.inl rfl, fun k hk => (hd.ne_reserved hsize (hpointer k hk)).1⟩
    · exact .inl ⟨.inr (.inl rfl), fun k hk => (hd.ne_reserved hsize (hpointer k hk)).2⟩
    · rcases (h.refers_iff hd).mp hplace with ⟨hold, hne⟩ | ⟨k, -, hk, rfl⟩
      · exact .inl ⟨inUse_of_refers hold, fun k hk heq =>
          hne k (hd.distinct hold (heq ▸ hpointer k hk))⟩
      · exact .inr ⟨k, hk, rfl⟩
  · rintro (⟨rfl | rfl | ⟨place, hplace⟩, hne⟩ | ⟨k, hk, rfl⟩)
    · exact .inl rfl
    · exact .inr (.inl rfl)
    · refine inUse_of_refers ((h.refers_iff hd).mpr (.inl ⟨hplace, ?_⟩))
      rintro k rfl
      exact hne k hplace.2.1 hplace.2.2
    · exact inUse_of_refers ((h.refers_iff hd).mpr (.inr ⟨k, rfl, hk, rfl⟩))

end BlockFS.Disk
