import BlockFS.Proofs.Data.Reading

/-!
What a read transfers, whatever the inode and whatever the device: the slice of the blocks that the
inode points at, one behind the other, that is asked for. Nothing is assumed of the inode, of what
the disk holds, or of which accesses fail. Since a plan of faults may let each access fail or not by
its number and by its block, what a read comes to on every device says which blocks it reads, how
many, and in which order.
-/

set_option autoImplicit false
set_option relaxedAutoImplicit false

namespace BlockFS

namespace Disk

/-- The blocks that an inode points at, one behind the other, whatever its size. -/
def pointed (d : Disk) (i : Inode) : List UInt8 :=
  i.pointers.toList.flatMap fun pointer => (d.block pointer).toList

theorem pointed_eq (d : Disk) (i : Inode) :
    d.pointed i = (List.range maxFileSize).map (d.byteAt i) := by
  have hpointers : i.pointers.toList = (List.range' (0 / blockSize) pointerCount).map i.pointer := by
    apply List.ext_getElem
    · rw [Vector.length_toList, List.length_map, List.length_range']
    · intro k hk _
      rw [Vector.length_toList] at hk
      rw [Vector.getElem_toList, List.getElem_map, List.getElem_range', Nat.zero_div, Nat.zero_add,
        Nat.one_mul, Inode.pointer_eq i hk]
      rfl
  have hblock : ∀ index ∈ List.range' (0 / blockSize) pointerCount,
      (d.block (i.pointer index)).toList = (i.segment 0 maxFileSize index).bytes d := by
    intro index hindex
    have hlast : index * blockSize + blockSize ≤ maxFileSize := by
      have hlt := (List.mem_range'_1.mp hindex).2
      rw [Nat.zero_div, Nat.zero_add] at hlt
      rw [← maxFileSize_eq, ← Nat.succ_mul]
      exact Nat.mul_le_mul_right blockSize hlt
    rw [Segment.bytes, Inode.segment]
    dsimp only
    rw [Nat.min_eq_right hlast, Nat.add_sub_cancel_left, Nat.zero_sub, List.drop_zero,
      List.take_of_length_le (Nat.le_of_eq (Vector.length_toList ..))]
  have hsegments := Inode.flatMap_first_segments i d (Nat.zero_le maxFileSize) pointerCount
  rw [List.flatMap_map, Nat.zero_div, Nat.zero_add, maxFileSize_eq, Nat.min_self,
    Nat.sub_zero] at hsegments
  rw [pointed, hpointers, List.flatMap_map, List.flatMap_congr hblock, Nat.zero_div, hsegments,
    List.range_eq_range']

theorem slice_pointed (d : Disk) (i : Inode) {start count : Nat}
    (h : start + count ≤ maxFileSize) :
    ((d.pointed i).drop start).take count = (List.range' start count).map (d.byteAt i) := by
  rw [pointed_eq, ← List.map_drop, ← List.map_take, List.range_eq_range', List.drop_range',
    List.take_range'_of_length_ge (by omega), Nat.mul_one, Nat.zero_add]

end Disk

namespace Inode

theorem flatMap_take_segments (i : Inode) (d : Disk) {start stop : Nat} (hle : start ≤ stop)
    (hstop : stop ≤ maxFileSize) (first : Nat) :
    (((blockRange start stop).map (i.segment start stop)).take first).flatMap (·.bytes d) =
      ((d.pointed i).drop start).take
        (min stop ((start / blockSize + first) * blockSize) - start) := by
  have hend : min stop ((start / blockSize + min first (blocksToHold stop - start / blockSize)) *
      blockSize) = min stop ((start / blockSize + first) * blockSize) := by
    rcases Nat.le_total first (blocksToHold stop - start / blockSize) with hfew | hmany
    · rw [Nat.min_eq_left hfew]
    · -- The blocks of the range end behind it.
      have hall : stop ≤
          (start / blockSize + (blocksToHold stop - start / blockSize)) * blockSize := by
        unfold blocksToHold blockSize
        omega
      have hmore := Nat.mul_le_mul_right blockSize (Nat.add_le_add_left hmany (start / blockSize))
      rw [Nat.min_eq_right hmany, Nat.min_eq_left hall, Nat.min_eq_left (Nat.le_trans hall hmore)]
  rw [← List.map_take, take_blockRange, flatMap_first_segments i d hle, hend,
    d.slice_pointed i (by omega)]

/-- A read answers and transfers what is asked for: bytes of the blocks that the inode points at, up
to the first of them that cannot be read. -/
structure ReadsSlice (i : Inode) (offset : Nat) (buffer : List UInt8) (d : Device) : Prop where
  typed : i.isRegular = false →
    i.readInto offset buffer d = (⟨.error (.refused .isADirectory), buffer⟩, d)
  sized : i.isRegular = true → maxFileSize < i.length →
    i.readInto offset buffer d = (⟨.error (.refused .io), buffer⟩, d)
  nothing : i.isRegular = true → i.length ≤ maxFileSize → i.length ≤ offset ∨ buffer = [] →
    i.readInto offset buffer d = (⟨.ok 0, buffer⟩, d)
  whole : ∀ {count ids}, i.isRegular = true → i.length ≤ maxFileSize → offset < i.length →
    buffer ≠ [] → count = min buffer.length (i.length - offset) →
    ids = (blockRange offset (offset + count)).map i.pointer → d.granted ids = ids.length →
      i.readInto offset buffer d =
        (⟨.ok count, ((d.disk.pointed i).drop offset).take count ++ buffer.drop count⟩,
          { d with accesses := d.accesses + ids.length })
  cut : ∀ {count filled ids}, i.isRegular = true → i.length ≤ maxFileSize → offset < i.length →
    buffer ≠ [] → count = min buffer.length (i.length - offset) →
    ids = (blockRange offset (offset + count)).map i.pointer → d.granted ids < ids.length →
    filled = (offset / blockSize + d.granted ids) * blockSize - offset →
      i.readInto offset buffer d =
        (⟨.error (.refused .io),
          ((d.disk.pointed i).drop offset).take filled ++ buffer.drop filled⟩,
          { d with accesses := d.accesses + (d.granted ids + 1) })

section

variable {i : Inode} {offset : Nat} {buffer : List UInt8}

theorem readable_eq (hregular : i.isRegular = true) (hlength : i.length ≤ maxFileSize) :
    i.readable offset buffer.length = if i.length ≤ offset ∨ buffer.length = 0 then .ok []
      else i.extent offset (offset + min buffer.length (i.length - offset)) := by
  rw [readable, if_pos hregular, boundedLength, if_neg (Nat.not_lt.mpr hlength)]
  rfl

/-- A read of some bytes comes to as many of its blocks as can be read. -/
theorem readInto_eq (d : Device) (hregular : i.isRegular = true) (hlength : i.length ≤ maxFileSize)
    (hoffset : offset < i.length) (hbuffer : buffer ≠ []) {count : Nat} {ids : List UInt32}
    (hcount : count = min buffer.length (i.length - offset))
    (hids : ids = (blockRange offset (offset + count)).map i.pointer) {filled : Nat}
    (hfilled : filled =
      min (offset + count) ((offset / blockSize + d.granted ids) * blockSize) - offset) :
    i.readInto offset buffer d =
      if d.granted ids < ids.length then
        (⟨.error (.refused .io),
          ((d.disk.pointed i).drop offset).take filled ++ buffer.drop filled⟩,
          { d with accesses := d.accesses + (d.granted ids + 1) })
      else
        (⟨.ok filled, ((d.disk.pointed i).drop offset).take filled ++ buffer.drop filled⟩,
          { d with accesses := d.accesses + d.granted ids }) := by
  have hsome := List.length_pos_iff.mpr hbuffer
  have hstop : offset + count ≤ maxFileSize := by omega
  have hreadable : i.readable offset buffer.length =
      .ok ((blockRange offset (offset + count)).map (i.segment offset (offset + count))) := by
    rw [readable_eq hregular hlength, if_neg (by omega), ← hcount,
      extent_eq i (by omega) hstop]
  have hblocks : ((blockRange offset (offset + count)).map
      (i.segment offset (offset + count))).map (·.block) = ids := by
    rw [hids, List.map_map]
    rfl
  have hnumber : ((blockRange offset (offset + count)).map
      (i.segment offset (offset + count))).length = ids.length := by
    rw [hids, List.length_map, List.length_map]
  have hbytes := i.flatMap_take_segments d.disk (Nat.le_add_right offset count) hstop
    (d.granted ids)
  rw [← hfilled] at hbytes
  have hroom : (((blockRange offset (offset + count)).map
      (i.segment offset (offset + count))).flatMap (·.bytes d.disk)).length ≤ buffer.length := by
    have hall := i.flatMap_take_segments d.disk (Nat.le_add_right offset count) hstop ids.length
    rw [List.take_of_length_le (Nat.le_of_eq hnumber)] at hall
    rw [hall, List.length_take]
    omega
  have hlen : (((d.disk.pointed i).drop offset).take filled).length = filled := by
    rw [d.disk.slice_pointed i (by omega), List.length_map, List.length_range']
  have hfill := fill_eq (fun segment hsegment => segment_within (Nat.le_add_right _ _) hsegment)
    hroom (congrArg d.granted hblocks) hbytes
  rw [hnumber, hlen] at hfill
  rw [readInto]
  simp only [hreadable]
  exact hfill

end

/-- A read of any inode from any device transfers the slice that is asked for, as far as it can be
read. -/
theorem reads_slice (i : Inode) (offset : Nat) (buffer : List UInt8) (d : Device) :
    i.ReadsSlice offset buffer d where
  typed hregular := by
    simp only [readInto, readable, hregular, Bool.false_eq_true, if_false]
  sized hregular hlength := by
    have hreadable : i.readable offset buffer.length = .error (.refused .io) := by
      rw [readable, if_pos hregular, boundedLength, if_pos hlength]
      rfl
    rw [readInto]
    simp only [hreadable]
  nothing hregular hlength hnone := by
    have hreadable : i.readable offset buffer.length = .ok [] := by
      rw [readable_eq hregular hlength, if_pos]
      exact hnone.imp_right List.length_eq_zero_iff.mpr
    rw [readInto]
    simp only [hreadable]
    rfl
  whole {count ids} hregular hlength hoffset hbuffer hcount hids hgranted := by
    have hlast : (offset / blockSize + d.granted ids) * blockSize ≥ offset + count := by
      have hsome := List.length_pos_iff.mpr hbuffer
      rw [hgranted, hids, List.length_map, length_blockRange]
      unfold blocksToHold blockSize
      omega
    have hfilled : count =
        min (offset + count) ((offset / blockSize + d.granted ids) * blockSize) - offset := by
      omega
    rw [readInto_eq d hregular hlength hoffset hbuffer hcount hids hfilled, if_neg (by omega),
      hgranted]
  cut {count filled ids} hregular hlength hoffset hbuffer hcount hids hgranted hfilled := by
    have hlast : (offset / blockSize + d.granted ids) * blockSize < offset + count := by
      have hnumber : ids.length = blocksToHold (offset + count) - offset / blockSize := by
        rw [hids, List.length_map, length_blockRange]
      rw [← lt_blocksToHold_iff]
      omega
    have hpart : filled =
        min (offset + count) ((offset / blockSize + d.granted ids) * blockSize) - offset := by
      omega
    rw [readInto_eq d hregular hlength hoffset hbuffer hcount hids hpart, if_pos hgranted]

end Inode

end BlockFS
