import BlockFS.Proofs.Data.Patch
import BlockFS.Proofs.Data.Resize
import BlockFS.Proofs.Volume.NamePlans

/-!
What the operations on the data of a file decide to change on a mounted volume, when they are
granted: the inode that is written, the blocks that are taken or given back, and the bytes.
-/

set_option autoImplicit false
set_option relaxedAutoImplicit false

namespace BlockFS

def Effect.growth (blocks : List UInt32) : List Effect :=
  if blocks.isEmpty then [] else Effect.allocate blocks

namespace Volume

open Failure (bind_eq_ok of_ofRefusal)
open Effect (of_storeInode)

theorem of_shrinkFile {v : Volume} {id : UInt32} {inode : Inode} {length : Nat}
    {update : Update Unit} (hplan : v.shrinkFile id inode length = .ok update) :
    inode.isRegular = true ∧ length ≤ inode.length ∧
      update = ⟨(), .store id (inode.cut length).encode ::
        Effect.deallocate (inode.dropped length)⟩ := by
  rw [shrinkFile] at hplan
  by_cases hregular : inode.isRegular = true
  · rw [if_pos hregular] at hplan
    obtain ⟨old, hold, hplan⟩ := bind_eq_ok.mp hplan
    obtain ⟨rfl, hlimit⟩ := Inode.of_boundedLength (of_ofRefusal hold)
    by_cases hlength : inode.length < length
    · rw [if_pos hlength] at hplan
      cases hplan
    · rw [if_neg hlength] at hplan
      have hle := Nat.le_of_not_lt hlength
      have hcount : blocksToHold length ≤ inode.blockCount :=
        Nat.le_min.mpr ⟨blocksToHold_mono hle, blocksToHold_le_pointerCount (by omega)⟩
      rw [Window.read_eq_ok hcount inode.blockCount_le, Inode.take_pointers] at hplan
      obtain ⟨freed, hfreed, hplan⟩ := bind_eq_ok.mp hplan
      obtain rfl : inode.dropped length = freed := Except.ok.inj hfreed
      obtain ⟨pointers, hpointers, hplan⟩ := bind_eq_ok.mp hplan
      obtain ⟨store, hstore, hplan⟩ := bind_eq_ok.mp hplan
      obtain rfl := of_storeInode (of_ofRefusal hstore)
      rw [Inode.pointers_cut hpointers] at hplan
      exact ⟨hregular, hle, (Except.ok.inj hplan).symm⟩
  · rw [if_neg hregular] at hplan
    cases hplan

theorem of_grow {v : Volume} (hfits : v.bitmap.Fits) {inode : Inode} (hformed : inode.WellFormed)
    {last : Nat} {grown : Inode × List Effect} (h : v.grow inode last = .ok grown) (now : UInt32)
    (stop : Nat) :
    ∃ blocks, v.bitmap.firstFit reservedBlocks (last + 1 - inode.blockCount) = .ok blocks ∧
      grown = ({ inode with pointers := (inode.written now stop blocks).pointers },
        Effect.growth blocks) := by
  rw [grow] at h
  by_cases hlast : last < inode.blockCount
  · rw [if_pos hlast] at h
    obtain rfl := Except.ok.inj h
    have hnone : last + 1 - inode.blockCount = 0 := by omega
    rw [hnone]
    refine ⟨[], v.bitmap.firstFit_zero reservedBlocks, ?_⟩
    rw [hformed.written_nil]
    rfl
  · rw [if_neg hlast] at h
    obtain ⟨blocks, hblocks, h⟩ := bind_eq_ok.mp h
    obtain ⟨pointers, hpointers, h⟩ := bind_eq_ok.mp h
    have hoffers := Bitmap.offers_of_firstFit hfits hblocks
    have hsome : blocks.isEmpty = false := by
      rw [List.isEmpty_eq_false_iff]
      rintro rfl
      have := hoffers.length
      simp only [List.length_nil] at this
      omega
    refine ⟨blocks, hblocks, ?_⟩
    rw [← hformed.pointers_written now stop hpointers, Effect.growth, hsome]
    exact (Except.ok.inj h).symm

/-- A write of some bytes takes the blocks it lacks, then writes the inode, then the bytes. -/
theorem of_overwrite {v : Volume} (hfits : v.bitmap.Fits) {inode : Inode}
    (hformed : inode.WellFormed) {now id : UInt32} {offset : Nat} {bytes : List UInt8}
    {update : Update Nat} (hbytes : bytes ≠ []) (hlimit : offset + bytes.length ≤ maxFileSize)
    (hplan : v.overwrite now id inode offset bytes = .ok update) :
    ∃ blocks, v.bitmap.firstFit reservedBlocks
        (blocksToHold (offset + bytes.length) - inode.blockCount) = .ok blocks ∧
      update = ⟨bytes.length, Effect.growth blocks ++
        .store id (inode.written now (offset + bytes.length) blocks).encode ::
          (inode.written now (offset + bytes.length) blocks).patches offset bytes⟩ := by
  have hpos := List.length_pos_iff.mpr hbytes
  have hcount : (offset + bytes.length - 1) / blockSize + 1 =
      blocksToHold (offset + bytes.length) := by
    unfold blocksToHold blockSize
    omega
  rw [overwrite] at hplan
  obtain ⟨grown, hgrown, hplan⟩ := bind_eq_ok.mp hplan
  obtain ⟨blocks, hblocks, rfl⟩ := of_grow hfits hformed hgrown now (offset + bytes.length)
  rw [hcount] at hblocks
  refine ⟨blocks, hblocks, ?_⟩
  simp only [hformed.size_written] at hplan
  obtain ⟨store, hstore, hplan⟩ := bind_eq_ok.mp hplan
  obtain rfl := of_storeInode (of_ofRefusal hstore)
  obtain ⟨segments, hsegments, hplan⟩ := bind_eq_ok.mp hplan
  rw [Inode.extent_eq _ (by omega) hlimit] at hsegments
  obtain rfl := Except.ok.inj hsegments
  rw [Inode.spread_eq] at hplan
  exact (Except.ok.inj hplan).symm

theorem found_of_writeFile {v : Volume} (hfits : v.bitmap.Fits) {inode : Inode}
    (hformed : inode.WellFormed) {now id : UInt32} {offset : Nat} {bytes : List UInt8}
    {update : Update Nat} (hplan : v.writeFile now id inode offset bytes = .ok update) :
    inode.isRegular = true ∧ offset ≤ inode.length ∧
      ((bytes = [] ∧ update = ⟨0, []⟩) ∨
        (bytes ≠ [] ∧ offset + bytes.length ≤ maxFileSize ∧ ∃ blocks,
          v.bitmap.firstFit reservedBlocks
            (blocksToHold (offset + bytes.length) - inode.blockCount) = .ok blocks ∧
          update = ⟨bytes.length, Effect.growth blocks ++
            .store id (inode.written now (offset + bytes.length) blocks).encode ::
              (inode.written now (offset + bytes.length) blocks).patches offset bytes⟩)) := by
  rw [writeFile] at hplan
  by_cases hregular : inode.isRegular = true
  · rw [if_pos hregular, hformed.boundedLength] at hplan
    obtain ⟨length, hlength, hplan⟩ := bind_eq_ok.mp hplan
    obtain rfl := Except.ok.inj (of_ofRefusal hlength)
    by_cases hoffset : inode.length < offset
    · rw [if_pos hoffset] at hplan
      cases hplan
    · rw [if_neg hoffset] at hplan
      refine ⟨hregular, Nat.le_of_not_lt hoffset, ?_⟩
      by_cases hbytes : bytes = []
      · subst hbytes
        exact .inl ⟨rfl, (Except.ok.inj hplan).symm⟩
      · rw [if_neg (by rwa [List.isEmpty_iff])] at hplan
        by_cases hlimit : maxFileSize < offset + bytes.length
        · rw [if_pos hlimit] at hplan
          cases hplan
        · rw [if_neg hlimit] at hplan
          have hle := Nat.le_of_not_lt hlimit
          exact .inr ⟨hbytes, hle, of_overwrite hfits hformed hbytes hle hplan⟩
  · rw [if_neg hregular] at hplan
    cases hplan

theorem writeFile_nil {v : Volume} {inode : Inode} (hformed : inode.WellFormed)
    (hregular : inode.isRegular = true) {now id : UInt32} {offset : Nat}
    (hoffset : offset ≤ inode.length) : v.writeFile now id inode offset [] = .ok ⟨0, []⟩ := by
  rw [writeFile, if_pos hregular, hformed.boundedLength]
  show (if inode.length < offset then _ else _) = _
  rw [if_neg (Nat.not_lt.mpr hoffset)]
  rfl

theorem shrinkFile_eq {v : Volume} {id : UInt32} {inode : Inode} (hformed : inode.WellFormed)
    (hregular : inode.isRegular = true) {length : Nat} (hlength : length ≤ inode.length)
    (hstore : ∀ written, Effect.storeInode v.superblock id written =
      .ok (.store id written.encode)) :
    v.shrinkFile id inode length = .ok ⟨(), .store id (inode.shrunk length).encode ::
      Effect.deallocate (inode.dropped length)⟩ := by
  have hcount : blocksToHold length ≤ inode.blockCount := by
    rw [hformed.blockCount]
    exact blocksToHold_mono hlength
  have hread := Window.read_eq_ok (v := inode.pointers) hcount inode.blockCount_le
  rw [Inode.take_pointers] at hread
  have hroom : blocksToHold length + (List.replicate (inode.dropped length).length
      (0 : UInt32)).length ≤ pointerCount := by
    have hlimit := inode.blockCount_le
    rw [List.length_replicate, Inode.length_dropped]
    omega
  obtain ⟨pointers, hpointers⟩ := Window.write_eq_ok (v := inode.pointers) hroom
  rw [shrinkFile, if_pos hregular, hformed.boundedLength]
  show (if inode.length < length then _ else _) = _
  rw [if_neg (Nat.not_lt.mpr hlength)]
  refine bind_eq_ok.mpr ⟨inode.dropped length, hread, bind_eq_ok.mpr ⟨pointers, hpointers,
    bind_eq_ok.mpr ⟨_, congrArg Failure.ofRefusal (hstore _), ?_⟩⟩⟩
  rw [Inode.pointers_cut hpointers, hformed.cut_eq]
  rfl

end Volume

namespace Content.Mounted

open Query (answer_bind_of_ok answer_bind_eq_ok answer_lift)

variable {c : Content} {diskSize : UInt32} (h : c.Mounted diskSize)

include h

theorem of_truncate {text : String} {length : Int} {update : Update Unit}
    (hplan : (c.volume.truncate text length).answer c.disk = .ok update) :
    ∃ id, c.disk.resolve text 0 = .ok id ∧ (c.disk.inode id).isRegular = true ∧ 0 ≤ length ∧
      length.toNat ≤ (c.disk.inode id).length ∧
      update = ⟨(), .store id ((c.disk.inode id).shrunk length.toNat).encode ::
        Effect.deallocate ((c.disk.inode id).dropped length.toNat)⟩ := by
  rw [Volume.truncate] at hplan
  by_cases hlength : length < 0
  · rw [if_pos hlength] at hplan
    cases hplan
  · rw [if_neg hlength] at hplan
    obtain ⟨located, hlocate, hplan⟩ := answer_bind_eq_ok.mp hplan
    obtain ⟨id, rfl, hresolve⟩ := h.of_locate hlocate
    rw [answer_lift] at hplan
    obtain ⟨hregular, hle, rfl⟩ := Volume.of_shrinkFile hplan
    refine ⟨id, hresolve, hregular, Int.not_lt.mp hlength, hle, ?_⟩
    rw [(h.consistent.formed (Disk.resolve_reachable hresolve)).cut_eq]

theorem truncate_answer {text : String} {id : UInt32} (hresolve : c.disk.resolve text 0 = .ok id)
    (hregular : (c.disk.inode id).isRegular = true) {length : Nat}
    (hlength : length ≤ (c.disk.inode id).length) :
    (c.volume.truncate text length).answer c.disk =
      .ok ⟨(), .store id ((c.disk.inode id).shrunk length).encode ::
        Effect.deallocate ((c.disk.inode id).dropped length)⟩ := by
  have hid := Disk.resolve_reachable hresolve
  rw [Volume.truncate, if_neg (Int.not_lt.mpr (Int.natCast_nonneg length))]
  refine (answer_bind_of_ok (h.locate_answer_ok hresolve) _).trans ?_
  rw [answer_lift, Int.toNat_natCast]
  exact Volume.shrinkFile_eq (h.consistent.formed hid) hregular hlength (h.storeInode hid)

theorem of_write {now : UInt32} {text : String} {offset : Nat} {bytes : List UInt8}
    {update : Update Nat}
    (hplan : (c.volume.write now text offset bytes).answer c.disk = .ok update) :
    ∃ id, c.disk.resolve text 0 = .ok id ∧
      c.volume.writeFile now id (c.disk.inode id) offset bytes = .ok update := by
  rw [Volume.write] at hplan
  obtain ⟨located, hlocate, hplan⟩ := answer_bind_eq_ok.mp hplan
  obtain ⟨id, rfl, hresolve⟩ := h.of_locate hlocate
  rw [answer_lift] at hplan
  exact ⟨id, hresolve, hplan⟩

end Content.Mounted

end BlockFS
