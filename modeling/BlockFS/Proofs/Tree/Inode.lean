import BlockFS.Volume.Attributes

/-!
Inodes as the operations leave them: of one of the two types, with a size that the pointers can hold
and no pointer behind the ones in use.
-/

set_option autoImplicit false
set_option relaxedAutoImplicit false

namespace BlockFS

private theorem or_and_mask (a b mask : UInt32) :
    (a ||| b) &&& mask = (a &&& mask) ||| (b &&& mask) := by
  apply UInt32.toBitVec_inj.1
  ext i hi
  simp [Bool.and_or_distrib_right]

theorem lt_blocksToHold_iff (length index : Nat) :
    index < blocksToHold length ↔ index * blockSize < length := by
  unfold blocksToHold blockSize
  omega

theorem blocksToHold_mono {m n : Nat} (h : m ≤ n) : blocksToHold m ≤ blocksToHold n := by
  unfold blocksToHold blockSize
  omega

theorem blocksToHold_le_pointerCount {length : Nat} (h : length ≤ maxFileSize) :
    blocksToHold length ≤ pointerCount := by
  unfold blocksToHold blockSize pointerCount
  unfold maxFileSize at h
  omega

namespace Inode

/-- The type is one of the two, a directory has the size of its slots, the pointers can hold the
size, and those behind the ones in use are zero. -/
structure WellFormed (i : Inode) : Prop where
  typed : i.isDirectory = true ∨ i.isRegular = true
  directory_size : i.isDirectory = true → i.size.toInt = (blockSize : Nat)
  nonneg : 0 ≤ i.size.toInt
  bounded : i.size.toInt ≤ (maxFileSize : Nat)
  unused : ∀ k : Fin pointerCount, blocksToHold i.length ≤ k.val → i.pointers.get k = 0

theorem isDirectory_iff (i : Inode) :
    i.isDirectory = true ↔ i.mode &&& typeMask = directoryBits := by
  simp only [isDirectory, type, FileType.ofMode, beq_iff_eq]
  split <;> simp_all

theorem isRegular_iff (i : Inode) : i.isRegular = true ↔ i.mode &&& typeMask = regularBits :=
  beq_iff_eq

theorem not_isDirectory_of_isRegular {i : Inode} (h : i.isRegular = true) :
    ¬ i.isDirectory = true := by
  rw [isDirectory_iff, (isRegular_iff i).mp h]
  decide

theorem isDirectory_eq_false_of_isRegular {i : Inode} (h : i.isRegular = true) :
    i.isDirectory = false :=
  Bool.eq_false_iff.mpr (not_isDirectory_of_isRegular h)

theorem blockCount_le (i : Inode) : i.blockCount ≤ pointerCount := Nat.min_le_right _ _

def pointer (i : Inode) (index : Nat) : UInt32 :=
  if h : index < pointerCount then i.pointers.get ⟨index, h⟩ else 0

theorem pointer_eq (i : Inode) {index : Nat} (h : index < pointerCount) :
    i.pointer index = i.pointers.get ⟨index, h⟩ := dif_pos h

def ownBlocks (i : Inode) : List UInt32 := (List.range i.blockCount).map i.pointer

theorem length_ownBlocks (i : Inode) : i.ownBlocks.length = i.blockCount := by
  rw [ownBlocks, List.length_map, List.length_range]

theorem take_pointers (i : Inode) : i.pointers.toList.take i.blockCount = i.ownBlocks := by
  have hle := i.blockCount_le
  refine List.ext_getElem ?_ ?_
  · rw [List.length_take, Vector.length_toList, length_ownBlocks, Nat.min_eq_left hle]
  · intro k hk hk'
    rw [length_ownBlocks] at hk'
    have hown : getElem i.ownBlocks k (by rwa [length_ownBlocks]) = i.pointer k := by
      simp only [ownBlocks, List.getElem_map, List.getElem_range]
    rw [List.getElem_take, Vector.getElem_toList, hown, pointer_eq i (Nat.lt_of_lt_of_le hk' hle)]
    rfl

theorem blocks_eq (i : Inode) : i.blocks = .ok i.ownBlocks := by
  rw [blocks, Window.read_eq_ok (Nat.zero_le _) i.blockCount_le, List.drop_zero, take_pointers]

theorem mem_ownBlocks {i : Inode} {block : UInt32} :
    block ∈ i.ownBlocks ↔
      ∃ k : Fin pointerCount, k.val < i.blockCount ∧ i.pointers.get k = block := by
  simp only [ownBlocks, List.mem_map, List.mem_range]
  constructor
  · rintro ⟨index, hindex, heq⟩
    have hlt := Nat.lt_of_lt_of_le hindex i.blockCount_le
    exact ⟨⟨index, hlt⟩, hindex, (pointer_eq i hlt).symm.trans heq⟩
  · rintro ⟨k, hk, heq⟩
    exact ⟨k.val, hk, (pointer_eq i k.isLt).trans heq⟩

theorem of_boundedLength {i : Inode} {length : Nat} (h : i.boundedLength = .ok length) :
    length = i.length ∧ i.length ≤ maxFileSize := by
  rw [boundedLength] at h
  split at h
  · cases h
  · exact ⟨(Except.ok.inj h).symm, Nat.le_of_not_lt ‹_›⟩

namespace WellFormed

variable {i : Inode}

theorem isRegular (h : i.WellFormed) (hfile : i.isDirectory = false) : i.isRegular = true :=
  h.typed.resolve_left (by simp [hfile])

theorem length_le (h : i.WellFormed) : i.length ≤ maxFileSize := Int.toNat_le.mpr h.bounded

theorem length_cast (h : i.WellFormed) : (i.length : Int) = i.size.toInt :=
  Int.toNat_of_nonneg h.nonneg

theorem size_eq (h : i.WellFormed) : i.size = Int32.ofNat i.length := by
  have hlimit := h.length_le
  rw [← Int32.toInt_inj, ← h.length_cast, Int32.toInt_ofNat_of_lt]
  unfold maxFileSize at hlimit
  omega

theorem boundedLength (h : i.WellFormed) : i.boundedLength = .ok i.length :=
  if_neg (Nat.not_lt.mpr h.length_le)

theorem blockCount (h : i.WellFormed) : i.blockCount = blocksToHold i.length :=
  Nat.min_eq_left (blocksToHold_le_pointerCount h.length_le)

theorem directory_blockCount (h : i.WellFormed) (hdirectory : i.isDirectory = true) :
    i.blockCount = 1 := by
  have hlength : i.length = blockSize := by
    rw [length, h.directory_size hdirectory, Int.toNat_natCast]
  rw [h.blockCount, hlength]
  rfl

end WellFormed

theorem WellFormed.of_same {i j : Inode} (h : i.WellFormed)
    (hmode : j.mode &&& typeMask = i.mode &&& typeMask) (hsize : j.size = i.size)
    (hpointers : j.pointers = i.pointers) : j.WellFormed where
  typed := by
    rw [isDirectory_iff, isRegular_iff, hmode, ← isDirectory_iff, ← isRegular_iff]
    exact h.typed
  directory_size := by
    rw [isDirectory_iff, hmode, ← isDirectory_iff, hsize]
    exact h.directory_size
  nonneg := hsize ▸ h.nonneg
  bounded := hsize ▸ h.bounded
  unused := by
    rw [length, hsize, hpointers]
    exact h.unused

theorem withPermissions_mode (i : Inode) (permissions : UInt32) :
    (i.withPermissions permissions).mode &&& typeMask = i.mode &&& typeMask := by
  have hkeep : ~~~permissionMask &&& typeMask = typeMask := by decide
  have hdrop : permissionMask &&& typeMask = 0 := by decide
  rw [withPermissions, or_and_mask, UInt32.and_assoc, UInt32.and_assoc, hkeep, hdrop,
    UInt32.and_zero, UInt32.or_zero]

theorem fresh_mode (type : FileType) (permissions : UInt32) (owner : Owner) (now : UInt32)
    (slots : Option UInt32) :
    (fresh type permissions owner now slots).mode &&& typeMask = type.bits := by
  have hbits : type.bits &&& typeMask = type.bits := by cases type <;> decide
  show ((permissions &&& ~~~typeMask) ||| type.bits) &&& typeMask = type.bits
  rw [or_and_mask, UInt32.and_assoc, UInt32.not_and_self, UInt32.and_zero, UInt32.zero_or, hbits]

theorem fresh_regular (permissions : UInt32) (owner : Owner) (now : UInt32)
    (slots : Option UInt32) :
    (fresh .regular permissions owner now slots).WellFormed ∧
      (fresh .regular permissions owner now slots).isDirectory = false ∧
      (fresh .regular permissions owner now slots).length = 0 := by
  have hregular : (fresh .regular permissions owner now slots).isRegular = true := by
    rw [isRegular_iff, fresh_mode]
    rfl
  have hsize : (fresh .regular permissions owner now slots).size = 0 := rfl
  refine ⟨⟨.inr hregular, ?_, by rw [hsize]; decide, by rw [hsize]; decide, ?_⟩,
    isDirectory_eq_false_of_isRegular hregular, by rw [length, hsize]; decide⟩
  · exact fun hdirectory => absurd hdirectory (not_isDirectory_of_isRegular hregular)
  · intro k _
    exact Vector.getElem_replicate k.isLt

theorem fresh_directory (permissions : UInt32) (owner : Owner) (now block : UInt32) :
    (fresh .directory permissions owner now (some block)).WellFormed ∧
      (fresh .directory permissions owner now (some block)).isDirectory = true ∧
      (fresh .directory permissions owner now (some block)).slotsBlock = block := by
  have hdirectory : (fresh .directory permissions owner now (some block)).isDirectory = true := by
    rw [isDirectory_iff, fresh_mode]
    rfl
  have hget : ∀ k : Fin pointerCount,
      (fresh .directory permissions owner now (some block)).pointers.get k =
        if 0 = k.val then block else 0 := by
    intro k
    refine (Vector.getElem_set pointerCount_pos k.isLt).trans ?_
    rw [Vector.getElem_replicate]
  have hsize : (fresh .directory permissions owner now (some block)).size =
      Int32.ofNat blockSize := rfl
  have hlength : blocksToHold (fresh .directory permissions owner now (some block)).length = 1 := by
    rw [length, hsize]
    decide
  refine ⟨⟨.inl hdirectory, fun _ => by rw [hsize]; decide, by rw [hsize]; decide,
    by rw [hsize]; decide, ?_⟩, hdirectory, ?_⟩
  · intro k hk
    rw [hlength] at hk
    rw [hget, if_neg (by omega)]
  · rw [slotsBlock, hget, if_pos rfl]

end Inode

end BlockFS
