import BlockFS.Proofs.Volume.DataPlans
import BlockFS.Proofs.Volume.Listing

/-!
When the operations that take blocks are granted on a mounted volume. The search for free blocks
finds as many as are clear in the bitmap, and the search for a slot finds one as long as not all are
used; nothing else stands in the way.
-/

set_option autoImplicit false
set_option relaxedAutoImplicit false

namespace BlockFS

open Failure (bind_eq_ok)

theorem Directory.firstUnused_isSome_iff {d : Directory} :
    d.firstUnused.isSome ↔ d.entries.length < slotCount := by
  have hlength : (d.toList.filter fun slot => slot.used).length < slotCount ↔
      (d.toList.filter fun slot => slot.used).length < d.toList.length := by
    rw [Vector.length_toList]
  rw [firstUnused, Vector.isSome_findFinIdx?, entries, hlength,
    List.length_filter_lt_length_iff_exists, Vector.any_eq_true]
  constructor
  · rintro ⟨k, hk, hunused⟩
    exact ⟨_, List.getElem_mem (by rwa [Vector.length_toList]), by simpa using hunused⟩
  · rintro ⟨slot, hslot, hunused⟩
    obtain ⟨k, hk, rfl⟩ := List.getElem_of_mem hslot
    exact ⟨k, by rwa [Vector.length_toList] at hk, by simpa using hunused⟩

theorem Bitmap.exists_firstFit {b : Bitmap} (hfits : b.Fits) {wanted : Nat}
    (hwanted : wanted ≤ pointerCount) (hclear : wanted ≤ (b.clear reservedBlocks.toNat).length) :
    ∃ blocks, b.firstFit reservedBlocks wanted = .ok blocks := by
  have hlimit : wanted < requestLimit := Nat.lt_of_le_of_lt hwanted (by decide)
  rw [firstFit_eq hfits reservedBlocks hlimit, if_pos hclear]
  exact ⟨_, rfl⟩

theorem Bitmap.firstFit_eq_noSpace {b : Bitmap} (hfits : b.Fits) {wanted : Nat}
    (hwanted : wanted ≤ pointerCount) (hclear : (b.clear reservedBlocks.toNat).length < wanted) :
    b.firstFit reservedBlocks wanted = .error (.refused .noSpace) := by
  have hlimit : wanted < requestLimit := Nat.lt_of_le_of_lt hwanted (by decide)
  rw [firstFit_eq hfits reservedBlocks hlimit, if_neg (Nat.not_le.mpr hclear)]

namespace Volume

variable {v : Volume} (hfits : v.bitmap.Fits) {inode : Inode}

include hfits

theorem exists_grow {last : Nat} (hlast : last < pointerCount)
    (hclear : last + 1 - inode.blockCount ≤ (v.bitmap.clear reservedBlocks.toNat).length) :
    ∃ grown, v.grow inode last = .ok grown := by
  rw [grow]
  by_cases hcovered : last < inode.blockCount
  · rw [if_pos hcovered]
    exact ⟨_, rfl⟩
  · obtain ⟨blocks, hblocks⟩ := Bitmap.exists_firstFit hfits (by omega) hclear
    have hlength := (Bitmap.offers_of_firstFit hfits hblocks).length
    have hroom : inode.blockCount + blocks.length ≤ pointerCount := by omega
    obtain ⟨pointers, hpointers⟩ := Window.write_eq_ok (v := inode.pointers) hroom
    rw [if_neg hcovered, hblocks]
    exact ⟨_, bind_eq_ok.mpr ⟨blocks, rfl, bind_eq_ok.mpr ⟨pointers, hpointers, rfl⟩⟩⟩

theorem grow_eq_noSpace {last : Nat} (hlast : last < pointerCount)
    (hclear : (v.bitmap.clear reservedBlocks.toNat).length < last + 1 - inode.blockCount) :
    v.grow inode last = .error (.refused .noSpace) := by
  have hcovered : ¬ last < inode.blockCount := by omega
  rw [grow, if_neg hcovered, Bitmap.firstFit_eq_noSpace hfits (by omega) hclear]
  rfl

variable {now id : UInt32} {offset : Nat} {bytes : List UInt8}
  (hstore : ∀ written, Effect.storeInode v.superblock id written = .ok (.store id written.encode))

include hstore

theorem map_overwrite (hbytes : bytes ≠ []) (hlimit : offset + bytes.length ≤ maxFileSize) :
    (v.overwrite now id inode offset bytes).map Update.result =
      if (v.bitmap.clear reservedBlocks.toNat).length <
          blocksToHold (offset + bytes.length) - inode.blockCount then
        .error (.refused .noSpace)
      else .ok bytes.length := by
  have hpos := List.length_pos_iff.mpr hbytes
  have hcount : (offset + bytes.length - 1) / blockSize + 1 =
      blocksToHold (offset + bytes.length) := by
    unfold blocksToHold blockSize
    omega
  have hlast : (offset + bytes.length - 1) / blockSize < pointerCount := by
    have := blocksToHold_le_pointerCount hlimit
    omega
  rw [← hcount, overwrite]
  by_cases hclear : (v.bitmap.clear reservedBlocks.toNat).length <
      (offset + bytes.length - 1) / blockSize + 1 - inode.blockCount
  · rw [if_pos hclear, grow_eq_noSpace hfits hlast hclear]
    rfl
  · obtain ⟨grown, hgrown⟩ := exists_grow hfits hlast (Nat.le_of_not_lt hclear)
    rw [if_neg hclear, hgrown]
    simp only [bind, Except.bind, hstore, liftM, monadLift, MonadLift.monadLift, Failure.ofRefusal,
      Inode.extent_eq _ (Nat.lt_add_of_pos_right hpos) hlimit, Inode.spread_eq]
    rfl

/-- The conditions on a write of some bytes, in the order in which they are checked. -/
theorem map_writeFile (hformed : inode.WellFormed) (hregular : inode.isRegular = true)
    (hbytes : bytes ≠ []) :
    (v.writeFile now id inode offset bytes).map Update.result =
      if inode.length < offset then .error (.refused .invalidArgument)
      else if maxFileSize < offset + bytes.length then .error (.refused .fileTooLarge)
      else if (v.bitmap.clear reservedBlocks.toNat).length <
          blocksToHold (offset + bytes.length) - inode.blockCount then
        .error (.refused .noSpace)
      else .ok bytes.length := by
  have hsome : ¬ bytes.isEmpty = true := by rwa [List.isEmpty_iff]
  rw [writeFile, if_pos hregular, hformed.boundedLength]
  show Except.map Update.result (if inode.length < offset then _ else _) = _
  rw [if_neg hsome]
  by_cases hoffset : inode.length < offset
  · rw [if_pos hoffset, if_pos hoffset]
    rfl
  · rw [if_neg hoffset, if_neg hoffset]
    by_cases hlimit : maxFileSize < offset + bytes.length
    · rw [if_pos hlimit, if_pos hlimit]
      rfl
    · rw [if_neg hlimit, if_neg hlimit]
      exact map_overwrite hfits hstore hbytes (Nat.le_of_not_lt hlimit)

end Volume

namespace Content.Mounted

open Query (answer_bind_of_ok answer_bind_of_error answer_lift)

variable {c : Content} {diskSize : UInt32} (h : c.Mounted diskSize)

include h

theorem create_answer_noSpace (now permissions : UInt32) (type : FileType) (owner : Owner)
    {text : String} {path : Path} {name : Name} {parent : UInt32}
    (htext : Path.ofString text = .ok (path ++ [name]))
    (hwalk : c.disk.walk rootId path = .ok parent)
    (hdirectory : (c.disk.inode parent).isDirectory = true)
    (hfind : (c.disk.slots parent).find name = none)
    (hfull : (c.disk.slots parent).firstUnused = none ∨
      c.volume.bitmap.firstFit reservedBlocks type.blockCount = .error (.refused .noSpace)) :
    (c.volume.create now text permissions type owner).answer c.disk =
      .error (.refused .noSpace) := by
  have hparent := Disk.walk_reachable Disk.reachable_root hwalk
  have hreach : (c.volume.superblock.reach (path ++ [name]) 1).answer c.disk = .ok parent := by
    rw [h.reach_answer, List.length_append, List.length_singleton, Nat.add_sub_cancel,
      List.take_left, hwalk]
    rfl
  rw [Volume.create, htext, answer_bind_of_ok (a := path ++ [name]) rfl]
  simp only [List.getLast?_append, List.getLast?_singleton, Option.some_or]
  rw [answer_bind_of_ok hreach, answer_bind_of_ok (h.loadInode_answer hparent),
    answer_bind_of_ok (h.slots_answer_directory hparent hdirectory)]
  simp only [hfind, Option.isSome_none, Bool.false_eq_true, if_false]
  cases hunused : (c.disk.slots parent).firstUnused with
  | none => rfl
  | some k =>
    have hblocks := hfull.resolve_left (by rw [hunused]; exact Option.some_ne_none k)
    exact answer_bind_of_error (by rw [answer_lift, hblocks]) _

end Content.Mounted

end BlockFS
