import BlockFS.Proofs.Invariant.Formatted

/-!
What of a sound content is determined by the rest of it. The blocks in use fix the bitmap and the
counters, in memory and on the disk, however the content came about; and the blocks of the tree fix
which blocks are in use. So two sound contents that agree on all blocks but that of the bitmap agree
on everything.
-/

set_option autoImplicit false
set_option relaxedAutoImplicit false

namespace BlockFS.Content

variable {c c' : Content} {diskSize : UInt32}

structure Identical (c c' : Content) : Prop where
  block : ∀ id, c'.disk.block id = c.disk.block id
  volume : c'.volume = c.volume

theorem Identical.refl (c : Content) : c.Identical c := ⟨fun _ => rfl, rfl⟩

theorem Identical.symm (h : c.Identical c') : c'.Identical c :=
  ⟨fun id => (h.block id).symm, h.volume.symm⟩

theorem Identical.trans {c'' : Content} (h : c.Identical c') (h' : c'.Identical c'') :
    c.Identical c'' :=
  ⟨fun id => (h'.block id).trans (h.block id), h'.volume.trans h.volume⟩

/-- The bitmap and the counters depend on nothing but the blocks in use. -/
theorem Sound.determined (h : c.Sound diskSize) (h' : c'.Sound diskSize)
    (huse : ∀ block, c'.disk.InUse block ↔ c.disk.InUse block) :
    c'.disk.block bitmapId = c.disk.block bitmapId ∧ c'.volume = c.volume := by
  have hmap : c'.volume.bitmap.map = c.volume.bitmap.map := by
    apply Bitmap.map_ext
    intro bit hbit
    have hword : (UInt32.ofNat bit).toNat = bit :=
      UInt32.toNat_ofNat_of_lt' (Nat.lt_trans hbit (by decide))
    have hmarked := h.tracks.marked (UInt32.ofNat bit)
    have hmarked' := h'.tracks.marked (UInt32.ofNat bit)
    rw [hword] at hmarked hmarked'
    exact Bool.eq_iff_iff.mpr (hmarked'.trans ((huse _).trans hmarked.symm))
  have hblock : c'.disk.block bitmapId = c.disk.block bitmapId := by
    rw [h.tracks.saved, h'.tracks.saved, hmap]
  have hbitmap : c.volume.bitmap = ⟨c.disk.block bitmapId, diskSize⟩ := by
    rw [h.tracks.saved, ← h.mounted.bitmap]
  have hcounts : c.volume.usage.Counts ⟨c.disk.block bitmapId, diskSize⟩ :=
    hbitmap ▸ h.tracks.counts
  refine ⟨hblock, ?_⟩
  rw [h.volume_eq hcounts, h'.volume_eq (hblock ▸ hcounts), hblock]

theorem Sound.identical (h : c.Sound diskSize) (h' : c'.Sound diskSize)
    (hblocks : ∀ id, id ≠ bitmapId → c'.disk.block id = c.disk.block id) : c.Identical c' := by
  have hsame : Disk.SameTree c.disk c'.disk :=
    fun {block} hblock => hblocks block (h.mounted.ne_bitmap hblock)
  obtain ⟨hbitmap, hvolume⟩ := h.determined h' fun _ => hsame.inUse_iff
  refine ⟨fun id => ?_, hvolume⟩
  by_cases hid : id = bitmapId
  · rw [hid, hbitmap]
  · exact hblocks id hid

end BlockFS.Content
