import BlockFS.Proofs.Codec.Window
import BlockFS.Proofs.Tree.Inode

/-!
The inodes of files that are cut or written: how long they are, and which of their pointers are new.
-/

set_option autoImplicit false
set_option relaxedAutoImplicit false

namespace BlockFS

namespace Inode

def shrunk (i : Inode) (length : Nat) : Inode :=
  { i with
    size := Int32.ofNat length
    pointers := Vector.ofFn fun k =>
      if k.val < blocksToHold length then i.pointers.get k else 0 }

/-- What cutting makes of any inode: the pointers in use behind the new end become zero, and those
that were not in use stay what they were. -/
def cut (i : Inode) (length : Nat) : Inode :=
  { i with
    size := Int32.ofNat length
    pointers := Vector.ofFn fun k =>
      if blocksToHold length ≤ k.val ∧ k.val < i.blockCount then 0 else i.pointers.get k }

/-- The blocks that a file cut to a length no longer needs. -/
def dropped (i : Inode) (length : Nat) : List UInt32 := i.ownBlocks.drop (blocksToHold length)

/-- The inode of a file that was written up to `stop`, with blocks added behind its own. -/
def written (i : Inode) (now : UInt32) (stop : Nat) (blocks : List UInt32) : Inode :=
  { i with
    size := Int32.ofNat (max i.length stop)
    mtime := now
    pointers := Vector.ofFn fun k =>
      if k.val < i.blockCount then i.pointers.get k else blocks.getD (k.val - i.blockCount) 0 }

theorem get_shrunk (i : Inode) (length : Nat) (k : Fin pointerCount) :
    (i.shrunk length).pointers.get k =
      if k.val < blocksToHold length then i.pointers.get k else 0 :=
  Vector.getElem_ofFn k.isLt

theorem get_cut (i : Inode) (length : Nat) (k : Fin pointerCount) :
    (i.cut length).pointers.get k =
      if blocksToHold length ≤ k.val ∧ k.val < i.blockCount then 0 else i.pointers.get k :=
  Vector.getElem_ofFn k.isLt

theorem get_written (i : Inode) (now : UInt32) (stop : Nat) (blocks : List UInt32)
    (k : Fin pointerCount) : (i.written now stop blocks).pointers.get k =
      if k.val < i.blockCount then i.pointers.get k else blocks.getD (k.val - i.blockCount) 0 :=
  Vector.getElem_ofFn k.isLt

private theorem ext_get {v w : Vector UInt32 pointerCount} (h : ∀ k, v.get k = w.get k) : v = w :=
  Vector.ext fun i hi => h ⟨i, hi⟩

theorem length_dropped (i : Inode) (length : Nat) :
    (i.dropped length).length = i.blockCount - blocksToHold length := by
  rw [dropped, List.length_drop, length_ownBlocks]

theorem WellFormed.get_eq_zero {i : Inode} (h : i.WellFormed) {k : Fin pointerCount}
    (hk : i.blockCount ≤ k.val) : i.pointers.get k = 0 :=
  h.unused k (h.blockCount ▸ hk)

theorem pointers_cut {i : Inode} {length : Nat} {pointers : Vector UInt32 pointerCount}
    (hwrite : Window.write i.pointers (blocksToHold length)
      (List.replicate (i.dropped length).length 0) = .ok pointers) :
    { i with pointers := pointers, size := Int32.ofNat length } = i.cut length := by
  have hpointers : pointers = (i.cut length).pointers := by
    apply ext_get
    intro k
    have hget := Window.get_write hwrite k
    rw [List.length_replicate, length_dropped] at hget
    rw [get_cut]
    by_cases hbehind : blocksToHold length ≤ k.val ∧ k.val < i.blockCount
    · rw [if_pos (by omega), List.getElem?_replicate_of_lt (by omega)] at hget
      rw [if_pos hbehind]
      exact Option.some.inj hget
    · rw [if_neg (by omega)] at hget
      rw [if_neg hbehind]
      exact Option.some.inj hget
  rw [hpointers]
  rfl

theorem WellFormed.cut_eq {i : Inode} (h : i.WellFormed) (length : Nat) :
    i.cut length = i.shrunk length := by
  have hpointers : (i.cut length).pointers = (i.shrunk length).pointers := by
    apply ext_get
    intro k
    rw [get_cut, get_shrunk]
    by_cases hlow : k.val < blocksToHold length
    · rw [if_neg (by omega), if_pos hlow]
    · rw [if_neg hlow]
      split
      · rfl
      · exact h.get_eq_zero (by omega)
  exact congrArg (fun pointers => { i with size := Int32.ofNat length, pointers := pointers })
    hpointers

theorem shrunk_shrunk (i : Inode) {length length' : Nat} (h : length ≤ length') :
    (i.shrunk length').shrunk length = i.shrunk length := by
  have hpointers : ((i.shrunk length').shrunk length).pointers = (i.shrunk length).pointers := by
    apply ext_get
    intro k
    have hmono : blocksToHold length ≤ blocksToHold length' := blocksToHold_mono h
    rw [get_shrunk, get_shrunk, get_shrunk]
    by_cases hlow : k.val < blocksToHold length
    · rw [if_pos hlow, if_pos hlow, if_pos (by omega)]
    · rw [if_neg hlow, if_neg hlow]
  exact congrArg (fun pointers => { i with size := Int32.ofNat length, pointers := pointers })
    hpointers

theorem WellFormed.shrunk_length {i : Inode} (h : i.WellFormed) : i.shrunk i.length = i := by
  have hpointers : (i.shrunk i.length).pointers = i.pointers := by
    apply ext_get
    intro k
    rw [get_shrunk]
    split
    · rfl
    · exact (h.unused k (by omega)).symm
  exact congrArg₂ (fun size pointers => { i with size := size, pointers := pointers })
    h.size_eq.symm hpointers

/-- Cut back to the length that it had before it was written, a file has the inode that it had, but
for the time. -/
theorem WellFormed.shrunk_written {i : Inode} (h : i.WellFormed) (now : UInt32) (stop : Nat)
    (blocks : List UInt32) :
    (i.written now stop blocks).shrunk i.length = { i with mtime := now } := by
  have hpointers : ((i.written now stop blocks).shrunk i.length).pointers = i.pointers := by
    apply ext_get
    intro k
    rw [get_shrunk, get_written]
    by_cases hk : k.val < blocksToHold i.length
    · rw [if_pos hk, if_pos (by rwa [h.blockCount])]
    · rw [if_neg hk]
      exact (h.unused k (by omega)).symm
  exact congrArg₂ (fun size pointers => { i with size := size, mtime := now, pointers := pointers })
    h.size_eq.symm hpointers

theorem WellFormed.pointers_written {i : Inode} (h : i.WellFormed) (now : UInt32) (stop : Nat)
    {blocks : List UInt32} {pointers : Vector UInt32 pointerCount}
    (hwrite : Window.write i.pointers i.blockCount blocks = .ok pointers) :
    pointers = (i.written now stop blocks).pointers := by
  apply ext_get
  intro k
  have hget := Window.get_write hwrite k
  rw [get_written]
  by_cases hlow : k.val < i.blockCount
  · rw [if_neg (by omega)] at hget
    rw [if_pos hlow]
    exact Option.some.inj hget
  · rw [if_neg hlow, List.getD_eq_getElem?_getD]
    by_cases hhigh : k.val < i.blockCount + blocks.length
    · rw [if_pos ⟨Nat.le_of_not_lt hlow, hhigh⟩] at hget
      rw [← hget]
      rfl
    · rw [if_neg (by omega)] at hget
      rw [List.getElem?_eq_none (by omega)]
      exact (Option.some.inj hget).trans (h.get_eq_zero (Nat.le_of_not_lt hlow))

theorem WellFormed.written_nil {i : Inode} (h : i.WellFormed) (now : UInt32) (stop : Nat) :
    (i.written now stop []).pointers = i.pointers := by
  apply ext_get
  intro k
  rw [get_written]
  split
  · rfl
  · exact (h.get_eq_zero (Nat.le_of_not_lt ‹_›)).symm

theorem WellFormed.size_written {i : Inode} (h : i.WellFormed) (stop : Nat) :
    (if i.length < stop then Int32.ofNat stop else i.size) = Int32.ofNat (max i.length stop) := by
  split
  · rw [Nat.max_eq_right (by omega)]
  · rw [Nat.max_eq_left (by omega), ← h.size_eq]

/-! ### Shape -/

private theorem toInt_size {length : Nat} (h : length ≤ maxFileSize) :
    (Int32.ofNat length).toInt = length := by
  refine Int32.toInt_ofNat_of_lt ?_
  unfold maxFileSize at h
  omega

theorem length_shrunk (i : Inode) {length : Nat} (h : length ≤ maxFileSize) :
    (i.shrunk length).length = length := by
  have hsize : (i.shrunk length).length = (Int32.ofNat length).toInt.toNat := rfl
  rw [hsize, toInt_size h, Int.toNat_natCast]

theorem blockCount_shrunk (i : Inode) {length : Nat} (h : length ≤ maxFileSize) :
    (i.shrunk length).blockCount = blocksToHold length := by
  rw [blockCount, length_shrunk i h, Nat.min_eq_left (blocksToHold_le_pointerCount h)]

theorem shrunk_wellFormed {i : Inode} (hregular : i.isRegular = true) {length : Nat}
    (h : length ≤ maxFileSize) : (i.shrunk length).WellFormed where
  typed := .inr hregular
  directory_size hdirectory := by
    have hfile := isDirectory_eq_false_of_isRegular hregular
    exact nomatch hfile.symm.trans hdirectory
  nonneg := by
    rw [shrunk, toInt_size h]
    exact Int.natCast_nonneg length
  bounded := by
    rw [shrunk, toInt_size h]
    exact Int.ofNat_le.mpr h
  unused k hk := by
    rw [length_shrunk i h] at hk
    rw [get_shrunk, if_neg (Nat.not_lt.mpr hk)]

section

variable {i : Inode} (hi : i.WellFormed) (now : UInt32) {stop : Nat} (hstop : stop ≤ maxFileSize)

include hi hstop

theorem max_length_le : max i.length stop ≤ maxFileSize := Nat.max_le.mpr ⟨hi.length_le, hstop⟩

theorem length_written (blocks : List UInt32) :
    (i.written now stop blocks).length = max i.length stop := by
  have hsize : (i.written now stop blocks).length =
      (Int32.ofNat (max i.length stop)).toInt.toNat := rfl
  rw [hsize, toInt_size (max_length_le hi hstop), Int.toNat_natCast]

variable {blocks : List UInt32} (hblocks : blocks.length = blocksToHold stop - i.blockCount)

include hblocks

omit hstop in
theorem blocksToHold_written :
    blocksToHold (max i.length stop) = i.blockCount + blocks.length := by
  rw [hblocks, hi.blockCount]
  rcases Nat.le_total i.length stop with hle | hle
  · have := blocksToHold_mono hle
    rw [Nat.max_eq_right hle]
    omega
  · have := blocksToHold_mono hle
    rw [Nat.max_eq_left hle]
    omega

theorem blockCount_written :
    (i.written now stop blocks).blockCount = i.blockCount + blocks.length := by
  rw [blockCount, length_written hi now hstop, ← blocksToHold_written hi hblocks,
    Nat.min_eq_left (blocksToHold_le_pointerCount (max_length_le hi hstop))]

theorem written_wellFormed (hregular : i.isRegular = true) :
    (i.written now stop blocks).WellFormed where
  typed := .inr hregular
  directory_size hdirectory := by
    have hfile := isDirectory_eq_false_of_isRegular hregular
    exact nomatch hfile.symm.trans hdirectory
  nonneg := by
    rw [written, toInt_size (max_length_le hi hstop)]
    exact Int.natCast_nonneg _
  bounded := by
    rw [written, toInt_size (max_length_le hi hstop)]
    exact Int.ofNat_le.mpr (max_length_le hi hstop)
  unused k hk := by
    rw [length_written hi now hstop, blocksToHold_written hi hblocks] at hk
    rw [get_written, if_neg (by omega), List.getD_eq_getElem?_getD,
      List.getElem?_eq_none (by omega)]
    rfl

end

/-! ### Pointers -/

theorem mem_dropped {i : Inode} {length : Nat} {block : UInt32} : block ∈ i.dropped length ↔
    ∃ k : Fin pointerCount, blocksToHold length ≤ k.val ∧ k.val < i.blockCount ∧
      i.pointers.get k = block := by
  rw [dropped, ownBlocks, ← List.map_drop, List.range_eq_range', List.drop_range']
  simp only [List.mem_map, List.mem_range'_1]
  constructor
  · rintro ⟨index, hindex, heq⟩
    have hlow : blocksToHold length ≤ index := by omega
    have hhigh : index < i.blockCount := by omega
    have hlt := Nat.lt_of_lt_of_le hhigh i.blockCount_le
    exact ⟨⟨index, hlt⟩, hlow, hhigh, (pointer_eq i hlt).symm.trans heq⟩
  · rintro ⟨k, hlow, hhigh, heq⟩
    exact ⟨k.val, by omega, (pointer_eq i k.isLt).trans heq⟩

theorem exists_pointer_written {i : Inode} (now : UInt32) {stop : Nat} {blocks : List UInt32}
    (hlimit : i.blockCount + blocks.length ≤ pointerCount) {block : UInt32} :
    (∃ k : Fin pointerCount, k.val < i.blockCount + blocks.length ∧
        (i.written now stop blocks).pointers.get k = block) ↔
      (∃ k : Fin pointerCount, k.val < i.blockCount ∧ i.pointers.get k = block) ∨
        block ∈ blocks := by
  simp only [get_written]
  constructor
  · rintro ⟨k, hk, heq⟩
    split at heq
    · exact .inl ⟨k, ‹_›, heq⟩
    · rw [List.getD_eq_getElem?_getD, List.getElem?_eq_getElem (by omega), Option.getD_some] at heq
      exact .inr (heq ▸ List.getElem_mem _)
  · rintro (⟨k, hk, heq⟩ | hblock)
    · exact ⟨k, by omega, by rwa [if_pos hk]⟩
    · obtain ⟨index, hindex, rfl⟩ := List.getElem_of_mem hblock
      refine ⟨⟨i.blockCount + index, by omega⟩, by simpa using hindex, ?_⟩
      rw [if_neg (by simp), Nat.add_sub_cancel_left, List.getD_eq_getElem?_getD,
        List.getElem?_eq_getElem hindex, Option.getD_some]

end Inode

end BlockFS
