import BlockFS.Proofs.Codec.Window
import BlockFS.Proofs.Operation.Change
import BlockFS.Proofs.Tree.Inode
import BlockFS.Volume.Data

/-!
Ranges of a file over its blocks. The segments of a range and the effects that write bytes to them
are given index by index: what belongs to the block at an index is cut from the range there.
-/

set_option autoImplicit false
set_option relaxedAutoImplicit false

namespace BlockFS

theorem Block.get_overlaid (block : Block) {start : Nat} {bytes : List UInt8}
    (h : start + bytes.length ≤ blockSize) (k : Fin blockSize) :
    some ((block.overlaid start bytes).get k) =
      if start ≤ k.val ∧ k.val < start + bytes.length then bytes[k.val - start]?
      else some (block.get k) := by
  obtain ⟨new, hnew⟩ := Window.write_eq_ok (v := block) h
  have hoverlaid : block.overlaid start bytes = new := by rw [overlaid, hnew]
  rw [hoverlaid]
  exact Window.get_write hnew k

/-- The blocks of a range that is not empty, from the one it begins in to the one it ends in. -/
def blockRange (start stop : Nat) : List Nat :=
  List.range' (start / blockSize) (blocksToHold stop - start / blockSize)

theorem mem_blockRange {start stop index : Nat} :
    index ∈ blockRange start stop ↔ start / blockSize ≤ index ∧ index * blockSize < stop := by
  rw [blockRange, List.mem_range'_1, ← lt_blocksToHold_iff]
  omega

theorem nodup_blockRange (start stop : Nat) : (blockRange start stop).Nodup := List.nodup_range'

theorem length_blockRange (start stop : Nat) :
    (blockRange start stop).length = blocksToHold stop - start / blockSize := List.length_range'

theorem take_blockRange (start stop count : Nat) : (blockRange start stop).take count =
    List.range' (start / blockSize) (min count (blocksToHold stop - start / blockSize)) := by
  rw [blockRange, List.range'_eq_map_range, ← List.map_take, List.take_range,
    List.range'_eq_map_range]

theorem mem_take_blockRange {start stop count index : Nat} :
    index ∈ (blockRange start stop).take count ↔
      index ∈ blockRange start stop ∧ index < start / blockSize + count := by
  rw [take_blockRange, blockRange, List.mem_range'_1, List.mem_range'_1]
  omega

namespace Inode

def segment (i : Inode) (start stop index : Nat) : Segment :=
  ⟨i.pointer index, start - index * blockSize,
    min stop (index * blockSize + blockSize) - index * blockSize⟩

/-- The effect that writes the part of some bytes that goes to the block at an index; the first of
the bytes goes to `offset`. -/
def patch (i : Inode) (offset : Nat) (bytes : List UInt8) (index : Nat) : Effect :=
  .overlay (i.pointer index) (offset - index * blockSize)
    ((bytes.drop (index * blockSize - offset)).take (blockSize - (offset - index * blockSize)))

def patches (i : Inode) (offset : Nat) (bytes : List UInt8) : List Effect :=
  (blockRange offset (offset + bytes.length)).map (i.patch offset bytes)

theorem exists_patches_eq (i : Inode) {offset index : Nat} {bytes : List UInt8}
    (h : index ∈ blockRange offset (offset + bytes.length)) :
    ∃ rest, i.patches offset bytes = (i.patches offset bytes).take (index - offset / blockSize) ++
      i.patch offset bytes index :: rest := by
  have hlow := (mem_blockRange.mp h).1
  rw [blockRange, List.mem_range'_1] at h
  have hcount : index - offset / blockSize < (i.patches offset bytes).length := by
    rw [patches, List.length_map, length_blockRange]
    omega
  have hpatch : (i.patches offset bytes)[index - offset / blockSize] =
      i.patch offset bytes index := by
    simp only [patches, blockRange, List.getElem_map, List.getElem_range', Nat.one_mul,
      Nat.add_sub_cancel' hlow]
  refine ⟨(i.patches offset bytes).drop (index - offset / blockSize + 1), ?_⟩
  rw [← hpatch, ← List.drop_eq_getElem_cons hcount, List.take_append_drop]

theorem segments_eq (i : Inode) {start stop : Nat} {indices : List Nat}
    (h : ∀ index ∈ indices, index < pointerCount ∧ index * blockSize ≤ stop) :
    i.segments start stop indices = .ok (indices.map (i.segment start stop)) := by
  induction indices with
  | nil => rfl
  | cons index rest ih =>
    obtain ⟨hpointer, hstop⟩ := h index List.mem_cons_self
    have hclip : clip index start stop = .ok (start - index * blockSize,
        min stop (index * blockSize + blockSize) - index * blockSize) := by
      have hmax : max start (index * blockSize) - index * blockSize =
          start - index * blockSize := by
        omega
      rw [clip, if_pos hstop, hmax]
    have hget : Window.get i.pointers index = .ok (i.pointer index) := by
      rw [pointer_eq i hpointer]
      exact dif_pos hpointer
    rw [segments, hclip, hget, ih fun k hk => h k (List.mem_cons_of_mem index hk)]
    rfl

theorem extent_eq (i : Inode) {start stop : Nat} (hstart : start < stop)
    (hstop : stop ≤ maxFileSize) :
    i.extent start stop = .ok ((blockRange start stop).map (i.segment start stop)) := by
  have hcount : (stop - 1) / blockSize + 1 = blocksToHold stop := by
    unfold blocksToHold blockSize
    omega
  have hlimit := blocksToHold_le_pointerCount hstop
  rw [extent, hcount]
  apply i.segments_eq
  intro index hindex
  have hlt := (mem_blockRange.mp hindex).2
  exact ⟨Nat.lt_of_lt_of_le ((lt_blocksToHold_iff _ _).mpr hlt) hlimit, Nat.le_of_lt hlt⟩

theorem mem_patches {i : Inode} {offset : Nat} {bytes : List UInt8}
    (hlimit : offset + bytes.length ≤ maxFileSize) {effect : Effect}
    (h : effect ∈ i.patches offset bytes) : ∃ (k : Fin pointerCount) (start : Nat)
      (part : List UInt8), effect = .overlay (i.pointers.get k) start part ∧
        k.val < blocksToHold (offset + bytes.length) ∧ start + part.length ≤ blockSize := by
  obtain ⟨index, hindex, rfl⟩ := List.mem_map.mp h
  obtain ⟨hlow, hhigh⟩ := mem_blockRange.mp hindex
  rw [← lt_blocksToHold_iff] at hhigh
  have hk := Nat.lt_of_lt_of_le hhigh (blocksToHold_le_pointerCount hlimit)
  refine ⟨⟨index, hk⟩, _, _, by rw [patch, pointer_eq i hk], hhigh, ?_⟩
  rw [List.length_take]
  unfold blockSize at hlow ⊢
  omega

private theorem front_segment (i : Inode) {start stop index : Nat} {bytes : List UInt8}
    (hlength : bytes.length = stop - start) (hbegin : index * blockSize < stop)
    (hfirst : start < index * blockSize + blockSize) :
    front (bytes.drop (index * blockSize - start))
        ((i.segment start stop index).hi - (i.segment start stop index).lo) =
      .ok ((bytes.drop (index * blockSize - start)).take
        (blockSize - (start - index * blockSize))) := by
  have htake : (bytes.drop (index * blockSize - start)).take
      ((i.segment start stop index).hi - (i.segment start stop index).lo) =
      (bytes.drop (index * blockSize - start)).take (blockSize - (start - index * blockSize)) := by
    rw [List.take_eq_take_iff, List.length_drop, hlength]
    simp only [segment]
    omega
  rw [front, if_pos, htake]
  rw [List.length_take, List.length_drop, hlength]
  simp only [segment]
  omega

private theorem spread_from (i : Inode) (start stop : Nat) (bytes : List UInt8)
    (hlength : bytes.length = stop - start) (count index : Nat) (hindex : start / blockSize ≤ index)
    (hstop : ∀ k, k < index + count → k * blockSize < stop) :
    spread ((List.range' index count).map (i.segment start stop))
        (bytes.drop (index * blockSize - start)) =
      .ok ((List.range' index count).map (i.patch start bytes)) := by
  induction count generalizing index with
  | zero => rfl
  | succ count ih =>
    have hbegin : index * blockSize < stop := hstop index (by omega)
    have hfirst : start < index * blockSize + blockSize := by
      unfold blockSize at hindex ⊢
      omega
    have hpart := i.front_segment hlength hbegin hfirst
    have hrest : spread ((List.range' (index + 1) count).map (i.segment start stop))
        ((bytes.drop (index * blockSize - start)).drop
          ((i.segment start stop index).hi - (i.segment start stop index).lo)) =
        .ok ((List.range' (index + 1) count).map (i.patch start bytes)) := by
      rw [← ih (index + 1) (by omega) fun k hk => hstop k (by omega), List.drop_drop]
      congr 1
      rw [List.drop_eq_drop_iff, hlength]
      simp only [segment]
      unfold blockSize at hfirst ⊢
      omega
    rw [List.range'_succ, List.map_cons, List.map_cons, spread, hpart]
    simp only [bind, Except.bind, hrest]
    rfl

theorem spread_eq (i : Inode) {start : Nat} {bytes : List UInt8} :
    spread ((blockRange start (start + bytes.length)).map
      (i.segment start (start + bytes.length))) bytes = .ok (i.patches start bytes) := by
  have hzero : start / blockSize * blockSize - start = 0 := by
    have := Nat.div_mul_le_self start blockSize
    omega
  have hle : start / blockSize ≤ blocksToHold (start + bytes.length) := by
    unfold blocksToHold blockSize
    omega
  have hspread := spread_from i start (start + bytes.length) bytes (by omega)
    (blocksToHold (start + bytes.length) - start / blockSize) (start / blockSize)
    (Nat.le_refl _) fun k hk => (lt_blocksToHold_iff _ k).mp ?_
  · rwa [hzero, List.drop_zero] at hspread
  · omega

end Inode

end BlockFS
