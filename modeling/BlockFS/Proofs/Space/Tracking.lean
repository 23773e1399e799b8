import BlockFS.Proofs.Operation.Change
import BlockFS.Proofs.Space.Usage

/-!
Which blocks the bitmaps say are in use. A content `Tracks` a set of blocks when the bits that are
set, in memory and on the disk, are exactly those of the set and the counters agree; it `Covers` a
set when at least those bits are set. Taking and giving back blocks adds them to what is tracked and
removes them.
-/

set_option autoImplicit false
set_option relaxedAutoImplicit false

namespace BlockFS

namespace Content

/-- The bitmap in memory and the one on the disk are the same, their bits are those of the given
blocks, and the counters agree with them. -/
structure Tracks (c : Content) (used : UInt32 → Prop) : Prop where
  marked : ∀ block : UInt32, Bitmap.isSet c.volume.bitmap.map block.toNat = true ↔ used block
  saved : c.disk.block bitmapId = c.volume.bitmap.map
  counts : c.volume.usage.Counts c.volume.bitmap

/-- The bits of the given blocks are set in memory and on the disk. -/
structure Covers (c : Content) (used : UInt32 → Prop) : Prop where
  marked : ∀ {block : UInt32}, used block →
    Bitmap.isSet c.volume.bitmap.map block.toNat = true
  saved : ∀ {block : UInt32}, used block →
    Bitmap.isSet (c.disk.block bitmapId) block.toNat = true

variable {c : Content} {used used' : UInt32 → Prop} {blocks : List UInt32}

theorem Tracks.covers (h : c.Tracks used) : c.Covers used where
  marked hused := (h.marked _).mpr hused
  saved hused := by
    rw [h.saved]
    exact (h.marked _).mpr hused

theorem Tracks.congr (h : c.Tracks used) (hsame : ∀ block, used' block ↔ used block) :
    c.Tracks used' :=
  ⟨fun block => (h.marked block).trans (hsame block).symm, h.saved, h.counts⟩

theorem Covers.mono (h : c.Covers used) (hsub : ∀ {block}, used' block → used block) :
    c.Covers used' :=
  ⟨fun hused => h.marked (hsub hused), fun hused => h.saved (hsub hused)⟩

theorem Tracks.of_disk {d : Disk} (h : c.Tracks used)
    (hsame : d.block bitmapId = c.disk.block bitmapId) : (Content.mk d c.volume).Tracks used :=
  ⟨h.marked, hsame.trans h.saved, h.counts⟩

theorem Covers.of_disk {d : Disk} (h : c.Covers used)
    (hsame : d.block bitmapId = c.disk.block bitmapId) : (Content.mk d c.volume).Covers used :=
  ⟨h.marked, fun hused => by
    show Bitmap.isSet (d.block bitmapId) _ = true
    rw [hsame]
    exact h.saved hused⟩

/-! ### Marking -/

theorem block_saveBitmap (c : Content) :
    (Effect.saveBitmap.change c).disk.block bitmapId = c.volume.bitmap.map := by
  rw [Effect.change, Disk.block_set, if_pos rfl]

theorem Covers.marked_true (h : c.Covers used) (hfits : c.volume.bitmap.Fits)
    (hrange : ∀ id ∈ blocks, id < c.volume.bitmap.blocks) :
    ((Effect.mark blocks true).change c).Covers used where
  marked hused := by
    rw [Effect.change, (Bitmap.markEach_spec hfits hrange true).2.2]
    split
    · rfl
    · exact h.marked hused
  saved hused := h.saved hused

theorem Covers.marked_false (h : c.Covers used) (hfits : c.volume.bitmap.Fits)
    (hrange : ∀ id ∈ blocks, id < c.volume.bitmap.blocks) (hfree : ∀ id ∈ blocks, ¬ used id) :
    ((Effect.mark blocks false).change c).Covers used where
  marked {block} hused := by
    rw [Effect.change, (Bitmap.markEach_spec hfits hrange false).2.2, if_neg]
    · exact h.marked hused
    · intro hmem
      obtain ⟨id, hid, heq⟩ := List.mem_map.mp hmem
      rw [UInt32.toNat_inj] at heq
      exact hfree id hid (heq ▸ hused)
  saved hused := h.saved hused

theorem Covers.saveBitmap (h : c.Covers used) : (Effect.saveBitmap.change c).Covers used where
  marked hused := h.marked hused
  saved hused := by
    rw [block_saveBitmap]
    exact h.marked hused

theorem Covers.counted (h : c.Covers used) (count : Nat) :
    ((Effect.charge count).change c).Covers used ∧
      ((Effect.credit count).change c).Covers used := by
  constructor
  · rw [Effect.change]
    split
    · exact ⟨h.marked, h.saved⟩
    · exact h
  · rw [Effect.change]
    split
    · exact ⟨h.marked, h.saved⟩
    · exact h

theorem Covers.allocated (h : c.Covers used) (hfits : c.volume.bitmap.Fits)
    (hrange : ∀ id ∈ blocks, id < c.volume.bitmap.blocks) :
    (Effect.saveBitmap.change ((Effect.mark blocks true).change c)).Covers
      fun block => used block ∨ block ∈ blocks := by
  have hbits : ∀ {block : UInt32}, (used block ∨ block ∈ blocks) →
      Bitmap.isSet (c.volume.bitmap.marked blocks true).map block.toNat = true := by
    rintro block (hused | hmem)
    · exact (h.marked_true hfits hrange).marked hused
    · rw [(Bitmap.markEach_spec hfits hrange true).2.2, if_pos (List.mem_map_of_mem hmem)]
  refine ⟨fun hused => hbits hused, ?_⟩
  intro block hused
  rw [block_saveBitmap]
  exact hbits hused

/-! ### Taking and giving back -/

private theorem mem_map_toNat {block : UInt32} :
    block.toNat ∈ blocks.map UInt32.toNat ↔ block ∈ blocks :=
  List.mem_map_of_injective fun _ _ heq => UInt32.toNat_inj.mp heq

def Counted (c : Content) : Prop := c.volume.usage.Counts c.volume.bitmap

section

variable (hfits : c.volume.bitmap.Fits) (hsize : bitmapId.toNat < c.disk.size)

include hfits hsize

theorem Counted.allocate (h : c.Counted) {wanted : Nat}
    (hoffers : c.volume.bitmap.Offers wanted blocks) :
    Effect.AllAllowed (Effect.allocate blocks) c ∧
      ∃ usage : Usage, usage.Counts (c.volume.bitmap.marked blocks true) ∧
        c.after (Effect.allocate blocks) =
          ⟨c.disk.set bitmapId (c.volume.bitmap.marked blocks true).map,
            ⟨c.volume.superblock, c.volume.bitmap.marked blocks true, usage⟩⟩ := by
  have hrange : ∀ id ∈ blocks, id < c.volume.bitmap.blocks := fun id hid =>
    UInt32.lt_iff_toNat_lt.mpr (Bitmap.mem_clear.mp (hoffers.clear id hid)).2.1
  obtain ⟨usage, hcharge, hcounts⟩ := Usage.Counts.of_charge h
    (Bitmap.markEach_spec hfits hrange true).2.1
    (Bitmap.length_clear_allocated hfits hoffers.nodup hoffers.clear)
  refine ⟨⟨hrange, hsize, ⟨usage, hcharge⟩, trivial⟩, usage, hcounts, ?_⟩
  simp only [Effect.allocate, after_cons, after_nil, Effect.change, hcharge]

theorem Counted.release (h : c.Counted) (hnodup : blocks.Nodup)
    (hblocks : ∀ id ∈ blocks, reservedBlocks ≤ id ∧ id < c.volume.bitmap.blocks ∧
      Bitmap.isSet c.volume.bitmap.map id.toNat = true) :
    Effect.AllAllowed [.mark blocks false, .saveBitmap, .credit blocks.length] c ∧
      ∃ usage : Usage, usage.Counts (c.volume.bitmap.marked blocks false) ∧
        c.after [.mark blocks false, .saveBitmap, .credit blocks.length] =
          ⟨c.disk.set bitmapId (c.volume.bitmap.marked blocks false).map,
            ⟨c.volume.superblock, c.volume.bitmap.marked blocks false, usage⟩⟩ := by
  have hrange : ∀ id ∈ blocks, id < c.volume.bitmap.blocks := fun id hid => (hblocks id hid).2.1
  obtain ⟨usage, hcredit, hcounts⟩ := Usage.Counts.of_credit h
    (Bitmap.markEach_spec hfits hrange false).2.1
    (Bitmap.length_clear_released hfits hnodup fun id hid =>
      ⟨UInt32.le_iff_toNat_le.mp (hblocks id hid).1, hrange id hid, (hblocks id hid).2.2⟩)
  refine ⟨⟨hrange, hsize, ⟨usage, hcredit⟩, trivial⟩, usage, hcounts, ?_⟩
  simp only [after_cons, after_nil, Effect.change, hcredit]

theorem Tracks.allocate (h : c.Tracks used) {wanted : Nat}
    (hoffers : c.volume.bitmap.Offers wanted blocks) :
    Effect.AllAllowed (Effect.allocate blocks) c ∧
      (c.after (Effect.allocate blocks)).Tracks fun block => used block ∨ block ∈ blocks := by
  have hrange : ∀ id ∈ blocks, id < c.volume.bitmap.blocks := fun id hid =>
    UInt32.lt_iff_toNat_lt.mpr (Bitmap.mem_clear.mp (hoffers.clear id hid)).2.1
  have hbits := (Bitmap.markEach_spec hfits hrange true).2.2
  obtain ⟨hallowed, usage, hcounts, hafter⟩ := Counted.allocate hfits hsize h.counts hoffers
  refine ⟨hallowed, ?_⟩
  rw [hafter]
  refine ⟨?_, ?_, hcounts⟩
  · intro block
    rw [hbits]
    by_cases hmem : block ∈ blocks
    · simp [mem_map_toNat, hmem]
    · simp [mem_map_toNat, hmem, h.marked block]
  · rw [Disk.block_set, if_pos rfl]

theorem Tracks.deallocate (h : c.Tracks used) (hnodup : blocks.Nodup)
    (hblocks : ∀ id ∈ blocks, reservedBlocks ≤ id ∧ id < c.volume.bitmap.blocks ∧ used id) :
    Effect.AllAllowed (Effect.deallocate blocks) c ∧
      (c.after (Effect.deallocate blocks)).Tracks fun block => used block ∧ block ∉ blocks := by
  by_cases hempty : blocks.isEmpty = true
  · rw [List.isEmpty_iff] at hempty
    subst hempty
    exact ⟨trivial, h.congr fun block => by simp⟩
  have hbits := (Bitmap.markEach_spec hfits (fun id hid => (hblocks id hid).2.1) false).2.2
  obtain ⟨hallowed, usage, hcounts, hafter⟩ := Counted.release hfits hsize h.counts hnodup
    fun id hid => ⟨(hblocks id hid).1, (hblocks id hid).2.1,
      (h.marked id).mpr (hblocks id hid).2.2⟩
  rw [Effect.deallocate, if_neg hempty]
  refine ⟨hallowed, ?_⟩
  rw [hafter]
  refine ⟨?_, ?_, hcounts⟩
  · intro block
    rw [hbits]
    by_cases hmem : block ∈ blocks
    · simp [mem_map_toNat, hmem]
    · simp [mem_map_toNat, hmem, h.marked block]
  · rw [Disk.block_set, if_pos rfl]

end

end Content

end BlockFS
