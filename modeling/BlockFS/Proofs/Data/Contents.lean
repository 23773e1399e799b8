import BlockFS.Proofs.Data.Patch
import BlockFS.Proofs.Data.Resize
import BlockFS.Proofs.Operation.Target

/-!
The bytes of a file as a list, and what cutting the file and writing to it do to them. A byte is
found in the block that the pointer for its position leads to. Writing patches only the positions of
the range that is written.
-/

set_option autoImplicit false
set_option relaxedAutoImplicit false

namespace BlockFS

namespace Disk

/-- The byte of a file at a position, in the block that the pointer for it leads to. -/
def byteAt (d : Disk) (i : Inode) (position : Nat) : UInt8 :=
  (d.block (i.pointer (position / blockSize))).get
    ⟨position % blockSize, Nat.mod_lt position (by decide)⟩

/-- The bytes of a file: as many of those of its blocks as its size says. -/
def contents (d : Disk) (i : Inode) : List UInt8 := (List.range i.length).map (d.byteAt i)

variable {d d' : Disk} {i j : Inode}

theorem length_contents (d : Disk) (i : Inode) : (d.contents i).length = i.length := by
  rw [contents, List.length_map, List.length_range]

theorem getElem?_contents {position : Nat} (h : position < i.length) :
    (d.contents i)[position]? = some (d.byteAt i position) := by
  rw [contents, List.getElem?_map, List.getElem?_range h, Option.map_some]

theorem contents_eq_take (hlength : j.length ≤ i.length)
    (hbyte : ∀ position < j.length, d'.byteAt j position = d.byteAt i position) :
    d'.contents j = (d.contents i).take j.length := by
  apply List.ext_getElem?
  intro position
  by_cases hposition : position < j.length
  · rw [getElem?_contents hposition, List.getElem?_take_of_lt hposition,
      getElem?_contents (Nat.lt_of_lt_of_le hposition hlength), hbyte position hposition]
  · rw [List.getElem?_eq_none (by rw [length_contents]; omega),
      List.getElem?_eq_none (by rw [List.length_take]; omega)]

theorem contents_congr (hlength : j.length = i.length)
    (hbyte : ∀ position < i.length, d'.byteAt j position = d.byteAt i position) :
    d'.contents j = d.contents i := by
  rw [contents_eq_take (Nat.le_of_eq hlength) (by rwa [hlength]), hlength, ← length_contents d i,
    List.take_length]

theorem contents_eq_splice {offset : Nat} {bytes : List UInt8} (hoffset : offset ≤ i.length)
    (hlength : j.length = max i.length (offset + bytes.length))
    (hinside : ∀ position, offset ≤ position → position < offset + bytes.length →
      bytes[position - offset]? = some (d'.byteAt j position))
    (houtside : ∀ position < i.length, (position < offset ∨ offset + bytes.length ≤ position) →
      d'.byteAt j position = d.byteAt i position) :
    d'.contents j = (d.contents i).take offset ++ bytes ++
      (d.contents i).drop (offset + bytes.length) := by
  have hfront : ((d.contents i).take offset).length = offset := by
    rw [List.length_take, length_contents, Nat.min_eq_left hoffset]
  apply List.ext_getElem?
  intro position
  by_cases hposition : position < j.length
  · -- The position is in front of the range, in it, or behind it.
    rw [getElem?_contents hposition, List.append_assoc]
    by_cases hlow : position < offset
    · rw [List.getElem?_append_left (by omega), List.getElem?_take_of_lt hlow,
        getElem?_contents (by omega), houtside position (by omega) (.inl hlow)]
    · rw [List.getElem?_append_right (by omega), hfront]
      by_cases hhigh : position < offset + bytes.length
      · rw [List.getElem?_append_left (by omega), hinside position (by omega) hhigh]
      · rw [List.getElem?_append_right (by omega), List.getElem?_drop]
        have hsum : offset + bytes.length + (position - offset - bytes.length) = position := by
          omega
        rw [hsum, getElem?_contents (by omega), houtside position (by omega) (.inr (by omega))]
  · rw [List.getElem?_eq_none (by rw [length_contents]; omega), List.getElem?_eq_none]
    simp only [List.length_append, hfront, List.length_drop, length_contents]
    omega

end Disk

namespace Inode

theorem div_lt_blockCount {i : Inode} (hi : i.WellFormed) {position : Nat}
    (h : position < i.length) : position / blockSize < i.blockCount := by
  rw [hi.blockCount, lt_blocksToHold_iff]
  exact Nat.lt_of_le_of_lt (Nat.div_mul_le_self position blockSize) h

theorem pointer_shrunk (i : Inode) {length index : Nat} (h : index < blocksToHold length) :
    (i.shrunk length).pointer index = i.pointer index := by
  unfold pointer
  split
  · rw [get_shrunk, if_pos h]
  · rfl

theorem pointer_written (i : Inode) (now : UInt32) (stop : Nat) (blocks : List UInt32) {index : Nat}
    (h : index < i.blockCount) : (i.written now stop blocks).pointer index = i.pointer index := by
  unfold pointer
  split
  · rw [get_written, if_pos h]
  · rfl

end Inode

/-! ### Patches -/

namespace Content

variable {i : Inode} {offset : Nat} {bytes : List UInt8}

theorem block_after_patch {indices : List Nat} (hnodup : indices.Nodup)
    {index : Nat} (hindex : ∀ other ∈ indices, i.pointer other = i.pointer index → other = index)
    (c : Content) :
    (c.after (indices.map (i.patch offset bytes))).disk.block (i.pointer index) =
      if index ∈ indices then
        (c.disk.block (i.pointer index)).overlaid (offset - index * blockSize)
          ((bytes.drop (index * blockSize - offset)).take
            (blockSize - (offset - index * blockSize)))
      else c.disk.block (i.pointer index) := by
  induction indices generalizing c with
  | nil => rfl
  | cons other rest ih =>
    obtain ⟨hother, hrest⟩ := List.nodup_cons.mp hnodup
    rw [List.map_cons, after_cons, ih hrest fun k hk => hindex k (List.mem_cons_of_mem other hk)]
    by_cases heq : other = index
    · subst heq
      rw [if_neg hother, if_pos List.mem_cons_self, Inode.patch, Effect.change, Disk.block_set,
        if_pos rfl]
    · have hne : i.pointer other ≠ i.pointer index := fun h =>
        heq (hindex other List.mem_cons_self h)
      have hsame : ((i.patch offset bytes other).change c).disk.block (i.pointer index) =
          c.disk.block (i.pointer index) := by
        rw [Inode.patch, Effect.change, Disk.block_set, if_neg hne]
      have hmem : index ∈ other :: rest ↔ index ∈ rest :=
        ⟨fun h => (List.mem_cons.mp h).resolve_left (Ne.symm heq), List.mem_cons_of_mem other⟩
      rw [hsame]
      simp only [hmem]

section

variable {c : Content} {position : Nat}
  (hdistinct : ∀ index, index * blockSize < offset + bytes.length →
    i.pointer index = i.pointer (position / blockSize) → index = position / blockSize)

include hdistinct

/-- Writing bytes to some of the blocks they are for, from the first on, changes the bytes of a file
in the part of the range that is in these blocks. -/
theorem byteAt_after_take (count : Nat) :
    some ((c.after ((i.patches offset bytes).take count)).disk.byteAt i position) =
      if (offset ≤ position ∧ position < offset + bytes.length) ∧
          position / blockSize < offset / blockSize + count then bytes[position - offset]?
      else some (c.disk.byteAt i position) := by
  have hsplit := Nat.div_add_mod position blockSize
  have hmod := Nat.mod_lt position (show blockSize > 0 by decide)
  have hcomm := Nat.mul_comm blockSize (position / blockSize)
  have hnodup := (nodup_blockRange offset (offset + bytes.length)).sublist
    (List.take_sublist count _)
  rw [Disk.byteAt, Inode.patches, ← List.map_take, block_after_patch hnodup fun index hindex =>
    hdistinct index (mem_blockRange.mp (List.mem_of_mem_take hindex)).2]
  by_cases hmem : position / blockSize ∈ (blockRange offset (offset + bytes.length)).take count
  · -- The block of the position is patched, and the position may still be outside the range: in the
    -- first block in front of it, in the last one behind it.
    obtain ⟨hrange, hcount⟩ := mem_take_blockRange.mp hmem
    obtain ⟨hlow, hhigh⟩ := mem_blockRange.mp hrange
    have hfit : offset - position / blockSize * blockSize +
        ((bytes.drop (position / blockSize * blockSize - offset)).take
          (blockSize - (offset - position / blockSize * blockSize))).length ≤ blockSize := by
      rw [List.length_take]
      unfold blockSize at hlow ⊢
      omega
    rw [if_pos hmem, Block.get_overlaid _ hfit, List.length_take, List.length_drop]
    simp only [hcount, and_true]
    by_cases hinside : offset ≤ position ∧ position < offset + bytes.length
    · rw [if_pos hinside, if_pos (by omega), List.getElem?_take_of_lt (by omega),
        List.getElem?_drop]
      congr 1
      omega
    · rw [if_neg hinside, if_neg (by omega), Disk.byteAt]
  · rw [if_neg hmem, if_neg, Disk.byteAt]
    rintro ⟨hinside, hcount⟩
    refine hmem (mem_take_blockRange.mpr ⟨mem_blockRange.mpr ?_, hcount⟩)
    exact ⟨Nat.div_le_div_right hinside.1, by omega⟩

theorem byteAt_after_patches :
    some ((c.after (i.patches offset bytes)).disk.byteAt i position) =
      if offset ≤ position ∧ position < offset + bytes.length then bytes[position - offset]?
      else some (c.disk.byteAt i position) := by
  have hall : position < offset + bytes.length →
      position / blockSize < offset / blockSize + (i.patches offset bytes).length := by
    intro hposition
    have hindex : position / blockSize < blocksToHold (offset + bytes.length) :=
      (lt_blocksToHold_iff _ _).mpr
        (Nat.lt_of_le_of_lt (Nat.div_mul_le_self position blockSize) hposition)
    rw [Inode.patches, List.length_map, length_blockRange]
    omega
  have hafter := byteAt_after_take (c := c) hdistinct (i.patches offset bytes).length
  rw [List.take_length] at hafter
  rw [hafter]
  refine if_congr ?_ rfl rfl
  exact and_iff_left_of_imp fun h => hall h.2

end

end Content

end BlockFS
