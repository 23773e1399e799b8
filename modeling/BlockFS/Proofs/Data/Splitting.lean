import BlockFS.Proofs.Data.File
import BlockFS.Proofs.Invariant.Determined

/-!
Two writes, the second where the first ended, and one write of both. The inode comes out the same,
because the blocks found for the second are those that one search would have found behind the first
ones. What is in the blocks comes out the same byte by byte: a byte is the last that was written to
its position, or what was there before.
-/

set_option autoImplicit false
set_option relaxedAutoImplicit false

namespace BlockFS

namespace Inode

/-- What a write to a file with the given inode does, once it was given blocks. -/
def writing (i : Inode) (id now : UInt32) (offset : Nat) (bytes : List UInt8)
    (blocks : List UInt32) : List Effect :=
  Effect.growth blocks ++ .store id (i.written now (offset + bytes.length) blocks).encode ::
    (i.written now (offset + bytes.length) blocks).patches offset bytes

theorem WellFormed.written_written {i : Inode} (hi : i.WellFormed) (now : UInt32)
    {stop stop' : Nat} (hle : stop ≤ stop') (hstop : stop ≤ maxFileSize) {first : List UInt32}
    (hfirst : first.length = blocksToHold stop - i.blockCount) (second : List UInt32) :
    (i.written now stop first).written now stop' second =
      i.written now stop' (first ++ second) := by
  have hsize : max (i.written now stop first).length stop' = max i.length stop' := by
    rw [length_written hi now hstop]
    omega
  have hcount := blockCount_written hi now hstop hfirst
  have hpointers : ((i.written now stop first).written now stop' second).pointers =
      (i.written now stop' (first ++ second)).pointers := by
    apply Vector.ext
    intro k hk
    have hget := get_written (i.written now stop first) now stop' second ⟨k, hk⟩
    have hget' := get_written i now stop' (first ++ second) ⟨k, hk⟩
    refine hget.trans (Eq.trans ?_ hget'.symm)
    dsimp only
    rw [hcount, get_written]
    dsimp only
    by_cases hold : k < i.blockCount
    · rw [if_pos (by omega), if_pos hold, if_pos hold]
    · rw [if_neg hold, if_neg hold, List.getD_eq_getElem?_getD, List.getD_eq_getElem?_getD,
        List.getD_eq_getElem?_getD]
      by_cases hadded : k < i.blockCount + first.length
      · rw [if_pos hadded, List.getElem?_append_left (by omega)]
      · rw [if_neg hadded, List.getElem?_append_right (by omega), Nat.sub_sub]
  exact congrArg₂ (fun size pointers => { i with size := size, mtime := now, pointers := pointers })
    (congrArg Int32.ofNat hsize) hpointers

theorem patches_congr {i j : Inode} {offset : Nat} {bytes : List UInt8}
    (h : ∀ index, index * blockSize < offset + bytes.length → i.pointer index = j.pointer index) :
    i.patches offset bytes = j.patches offset bytes := by
  apply List.map_congr_left
  intro index hindex
  rw [patch, patch, h index (mem_blockRange.mp hindex).2]

/-- The pointers for the bytes in front of a position lead to different blocks, none of them the
inode's own or the bitmap. -/
structure Apart (j : Inode) (id : UInt32) (stop : Nat) : Prop where
  self : ∀ index, index * blockSize < stop → j.pointer index ≠ id
  bitmap : ∀ index, index * blockSize < stop → j.pointer index ≠ bitmapId
  injective : ∀ index other, index * blockSize < stop → other * blockSize < stop →
    j.pointer index = j.pointer other → index = other

theorem block_of_bytes {j : Inode} {d d' : Disk} {index : Nat}
    (h : ∀ position, position / blockSize = index → d'.byteAt j position = d.byteAt j position) :
    d'.block (j.pointer index) = d.block (j.pointer index) := by
  apply Vector.ext
  intro k hk
  have hdiv : (index * blockSize + k) / blockSize = index := by
    rw [Nat.add_comm, Nat.add_mul_div_right _ _ (by decide), Nat.div_eq_of_lt hk, Nat.zero_add]
  have hmod : (index * blockSize + k) % blockSize = k := by
    rw [Nat.add_comm, Nat.add_mul_mod_self_right, Nat.mod_eq_of_lt hk]
  have hbyte := h (index * blockSize + k) hdiv
  rw [Disk.byteAt, Disk.byteAt] at hbyte
  simp only [hdiv, hmod] at hbyte
  exact hbyte

end Inode

namespace Content

variable {c : Content} {diskSize id now : UInt32}

theorem Extends.lt_blockCount (h : c.Mounted diskSize) {stop : Nat} {blocks : List UInt32}
    (he : Extends c diskSize id stop blocks) (now : UInt32) {index : Nat}
    (hindex : index * blockSize < stop) :
    index < ((c.disk.inode id).written now stop blocks).blockCount := by
  have hformed := h.consistent.formed he.reachable
  rw [Inode.blockCount_written hformed now he.limit he.length,
    ← Inode.blocksToHold_written hformed he.length, lt_blocksToHold_iff]
  exact Nat.lt_of_lt_of_le hindex (Nat.le_max_right _ _)

theorem Extends.patches_written (h : c.Mounted diskSize) {offset : Nat} {bytes : List UInt8}
    {blocks : List UInt32} (he : Extends c diskSize id (offset + bytes.length) blocks)
    (now : UInt32) (stop : Nat) (more : List UInt32) :
    (((c.disk.inode id).written now (offset + bytes.length) blocks).written now stop
        more).patches offset bytes =
      ((c.disk.inode id).written now (offset + bytes.length) blocks).patches offset bytes :=
  Inode.patches_congr fun _ hindex =>
    Inode.pointer_written _ _ _ _ (he.lt_blockCount h now hindex)

theorem Extends.apart (h : c.Mounted diskSize) {offset : Nat} {bytes : List UInt8}
    {blocks : List UInt32} (he : Extends c diskSize id (offset + bytes.length) blocks)
    (now : UInt32) :
    ((c.disk.inode id).written now (offset + bytes.length) blocks).Apart id
      (offset + bytes.length) := by
  have hstored := (he.written_store h now).mounted
  have hinode := (he.rewrites now).inode
  have hid := ((he.rewrites now).reachable_iff h.consistent).mpr he.reachable
  have hrefers : ∀ index, index * blockSize < offset + bytes.length → ∃ hk : index < pointerCount,
      (c.disk.set id ((c.disk.inode id).written now (offset + bytes.length) blocks).encode).Refers
        (.pointer id ⟨index, hk⟩)
        (((c.disk.inode id).written now (offset + bytes.length) blocks).pointer index) := by
    intro index hindex
    have hwithin := he.lt_blockCount h now hindex
    rw [← hinode] at hwithin
    have hplace := hstored.consistent.refers_pointer_index hid hwithin
    rwa [after_cons, after_nil, Effect.change, hinode] at hplace
  refine ⟨?_, ?_, ?_⟩
  · intro index hindex heq
    obtain ⟨hk, hplace⟩ := hrefers index hindex
    exact hstored.consistent.ne_pointer hid hplace heq.symm
  · intro index hindex
    obtain ⟨hk, hplace⟩ := hrefers index hindex
    exact (hstored.consistent.ne_reserved hstored.low hplace).2
  · intro index other hindex hother heq
    exact he.pointer_injective h now (he.lt_blockCount h now hindex)
      (he.lt_blockCount h now hother) heq

section

variable {j : Inode} {stop offset : Nat} {bytes : List UInt8} (hj : j.Apart id stop)
  (hlimit : offset + bytes.length ≤ stop) {blocks : List UInt32} {contents : Block}

include hj hlimit

theorem byteAt_after_writing {position : Nat}
    (hposition : position / blockSize * blockSize < stop) :
    some ((c.after (Effect.growth blocks ++ .store id contents ::
        j.patches offset bytes)).disk.byteAt j position) =
      if offset ≤ position ∧ position < offset + bytes.length then bytes[position - offset]?
      else some (c.disk.byteAt j position) := by
  have hbefore : (c.after (Effect.growth blocks ++ [.store id contents])).disk.byteAt j position =
      c.disk.byteAt j position := by
    rw [Disk.byteAt, Disk.byteAt, block_after]
    intro effect heffect htarget
    rcases List.mem_append.mp heffect with hmem | hmem
    · exact hj.bitmap _ hposition (Effect.bookkeeping_growth hmem _ htarget)
    · rw [List.mem_singleton.mp hmem] at htarget
      exact hj.self _ hposition (Option.some.inj htarget).symm
  rw [← List.singleton_append, ← List.append_assoc, after_append, byteAt_after_patches, hbefore]
  intro index hindex heq
  exact hj.injective _ _ (Nat.lt_of_lt_of_le hindex hlimit) hposition heq

theorem block_after_writing_self :
    (c.after (Effect.growth blocks ++ .store id contents ::
      j.patches offset bytes)).disk.block id = contents := by
  rw [after_append, after_cons, block_after, Effect.change, Disk.block_set, if_pos rfl]
  intro effect heffect htarget
  obtain ⟨index, hindex, rfl⟩ := List.mem_map.mp heffect
  exact hj.self index (Nat.lt_of_lt_of_le (mem_blockRange.mp hindex).2 hlimit)
    (Option.some.inj htarget)

omit hj in
theorem block_after_writing_of_ne {block : UInt32} (hself : block ≠ id) (hbitmap : block ≠ bitmapId)
    (hdata : ∀ index, index * blockSize < stop → j.pointer index ≠ block) :
    (c.after (Effect.growth blocks ++ .store id contents ::
      j.patches offset bytes)).disk.block block = c.disk.block block := by
  apply block_after
  intro effect heffect htarget
  rcases List.mem_append.mp heffect with hmem | hmem
  · exact hbitmap (Effect.bookkeeping_growth hmem _ htarget)
  · rcases List.mem_cons.mp hmem with rfl | hmem
    · exact hself (Option.some.inj htarget).symm
    · obtain ⟨index, hindex, rfl⟩ := List.mem_map.mp hmem
      exact hdata index (Nat.lt_of_lt_of_le (mem_blockRange.mp hindex).2 hlimit)
        (Option.some.inj htarget)

end

/-- Blocks other than that of the bitmap hold the same after two writes, the second where the first
ended, as after one write of both. -/
theorem block_after_writing_append {j : Inode} {offset : Nat} {front back : List UInt8}
    (hj : j.Apart id (offset + (front ++ back).length)) {first second blocks : List UInt32}
    {contents contents' : Block} {block : UInt32} (hblock : block ≠ bitmapId) :
    ((c.after (Effect.growth first ++ .store id contents :: j.patches offset front)).after
        (Effect.growth second ++ .store id contents' ::
          j.patches (offset + front.length) back)).disk.block block =
      (c.after (Effect.growth blocks ++ .store id contents' ::
        j.patches offset (front ++ back))).disk.block block := by
  have htotal : offset + (front ++ back).length = offset + front.length + back.length := by
    rw [List.length_append, Nat.add_assoc]
  have hfront : offset + front.length ≤ offset + (front ++ back).length := by omega
  have hback : offset + front.length + back.length ≤ offset + (front ++ back).length := by omega
  by_cases hself : block = id
  · subst hself
    rw [block_after_writing_self hj hback, block_after_writing_self hj (Nat.le_refl _)]
  · by_cases hdata : ∃ index, index * blockSize < offset + (front ++ back).length ∧
        j.pointer index = block
    · obtain ⟨index, hindex, rfl⟩ := hdata
      apply Inode.block_of_bytes
      rintro position rfl
      apply Option.some.inj
      rw [byteAt_after_writing hj hback hindex, byteAt_after_writing hj (Nat.le_refl _) hindex,
        byteAt_after_writing hj hfront hindex]
      -- The position is in what is written last, in what is written first, or in neither.
      by_cases hlast : offset + front.length ≤ position ∧
          position < offset + front.length + back.length
      · rw [if_pos hlast, if_pos (by omega), List.getElem?_append_right (by omega), Nat.sub_sub]
      · rw [if_neg hlast]
        by_cases hearly : offset ≤ position ∧ position < offset + front.length
        · rw [if_pos hearly, if_pos (by omega), List.getElem?_append_left (by omega)]
        · rw [if_neg hearly, if_neg (by omega)]
    · have hother : ∀ index, index * blockSize < offset + (front ++ back).length →
          j.pointer index ≠ block := fun index hindex heq => hdata ⟨index, hindex, heq⟩
      rw [block_after_writing_of_ne hback hself hblock hother,
        block_after_writing_of_ne hfront hself hblock hother,
        block_after_writing_of_ne (Nat.le_refl _) hself hblock hother]

theorem bitmap_after_writing (i : Inode) (offset : Nat) (bytes : List UInt8)
    (blocks : List UInt32) :
    (c.after (i.writing id now offset bytes blocks)).volume.bitmap =
      c.volume.bitmap.marked blocks true := by
  have hgrowth : (c.after (Effect.growth blocks)).volume.bitmap =
      c.volume.bitmap.marked blocks true := by
    rw [Effect.growth]
    split
    · rename_i hempty
      rw [List.isEmpty_iff.mp hempty]
      rfl
    · simp only [Effect.allocate, after_cons, after_nil, Effect.change]
      split <;> rfl
  rw [Inode.writing, after_append, volume_after, hgrowth]
  intro effect heffect
  rcases List.mem_cons.mp heffect with rfl | hmem
  · trivial
  · obtain ⟨index, -, rfl⟩ := List.mem_map.mp hmem
    trivial

end Content

end BlockFS
