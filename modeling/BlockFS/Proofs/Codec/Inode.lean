import BlockFS.Proofs.Codec.Words
import BlockFS.Record.Inode

/-!
An inode that is written to a block is read back from it, and an inode that was read from a block
gives back every byte of it: its words stand side by side and fill the block.
-/

set_option autoImplicit false
set_option relaxedAutoImplicit false

namespace BlockFS.Inode

open LittleEndian (fieldBytes word_of_fields word_of_toList word_lt_capacity capacity_two
  capacity_four flatMap_eq_append wordsFrom fieldBytes_wordsFrom wordsFrom_replicate
  fieldsWidth_replicate)

/-- The widths and values of the words before the pointers. -/
def fields (i : Inode) : List (Nat × Nat) :=
  [(2, i.uid.toNat), (2, i.gid.toNat), (4, i.mode.toNat), (4, i.ctime.toNat), (4, i.mtime.toNat),
    (4, i.size.toUInt32.toNat)]

def pointerBytes (i : Inode) : List UInt8 :=
  i.pointers.toList.flatMap fun pointer => LittleEndian.encode 4 pointer.toNat

theorem toList_header (i : Inode) : i.header.toList = fieldBytes i.fields := by
  simp only [header, Vector.toList_append, LittleEndian.toList_bytes, fieldBytes, fields,
    List.flatMap_cons, List.flatMap_nil, List.append_nil, List.append_assoc]

theorem toList_encode (i : Inode) :
    i.encode.toList = fieldBytes i.fields ++ i.pointerBytes := by
  rw [encode, Vector.toList_append, toList_header]
  congr 1
  simp only [pointerBytes, Vector.toList, Vector.flatten, Vector.map]
  simp [Array.toList_flatten, List.flatMap, Function.comp_def, LittleEndian.bytes]

private theorem word_pointer (i : Inode) (k : Fin pointerCount) :
    LittleEndian.word i.encode (inodeHeaderSize + 4 * k.val) 4 = i.pointers[k.val].toNat := by
  obtain ⟨front, back, hbytes, hfront⟩ := flatMap_eq_append
    (f := fun pointer : UInt32 => LittleEndian.encode 4 pointer.toNat)
    (fun pointer => LittleEndian.length_encode 4 pointer.toNat) i.pointers.toList
    (k := k.val) (by simp)
  refine word_of_toList (i.header.toList ++ front) back ?_
    (by rw [List.length_append, Vector.length_toList, hfront])
    (by rw [capacity_four]; exact i.pointers[k.val].toNat_lt)
  rw [toList_encode, pointerBytes, hbytes, toList_header, Vector.getElem_toList, List.append_assoc]

theorem decode_encode (i : Inode) : decode i.encode = i := by
  have huid : LittleEndian.word i.encode 0 2 = i.uid.toNat :=
    word_of_fields [] (toList_encode i) (by rw [capacity_two]; exact i.uid.toNat_lt)
  have hgid : LittleEndian.word i.encode 2 2 = i.gid.toNat :=
    word_of_fields (i.fields.take 1) (toList_encode i)
      (by rw [capacity_two]; exact i.gid.toNat_lt)
  have hmode : LittleEndian.word i.encode 4 4 = i.mode.toNat :=
    word_of_fields (i.fields.take 2) (toList_encode i)
      (by rw [capacity_four]; exact i.mode.toNat_lt)
  have hctime : LittleEndian.word i.encode 8 4 = i.ctime.toNat :=
    word_of_fields (i.fields.take 3) (toList_encode i)
      (by rw [capacity_four]; exact i.ctime.toNat_lt)
  have hmtime : LittleEndian.word i.encode 12 4 = i.mtime.toNat :=
    word_of_fields (i.fields.take 4) (toList_encode i)
      (by rw [capacity_four]; exact i.mtime.toNat_lt)
  have hsize : LittleEndian.word i.encode 16 4 = i.size.toUInt32.toNat :=
    word_of_fields (i.fields.take 5) (toList_encode i)
      (by rw [capacity_four]; exact i.size.toUInt32.toNat_lt)
  have hpointers : (Vector.ofFn fun k : Fin pointerCount =>
      UInt32.ofNat (LittleEndian.word i.encode (inodeHeaderSize + 4 * k.val) 4)) = i.pointers := by
    apply Vector.ext
    intro k hk
    rw [Vector.getElem_ofFn, word_pointer i ⟨k, hk⟩, UInt32.ofNat_toNat]
  rw [decode, hpointers, huid, hgid, hmode, hctime, hmtime, hsize]
  simp only [UInt16.ofNat_toNat, UInt32.ofNat_toNat]
  rfl

/-! ### Blocks that are read -/

def headerWidths : List Nat := [2, 2, 4, 4, 4, 4]

theorem fields_decode (block : Block) : (decode block).fields = wordsFrom block 0 headerWidths := by
  have htwo : ∀ {start}, start + 2 ≤ blockSize →
      LittleEndian.word block start 2 % 65536 = LittleEndian.word block start 2 := by
    intro start h
    exact Nat.mod_eq_of_lt (capacity_two ▸ word_lt_capacity block start 2 h)
  have hfour : ∀ {start}, start + 4 ≤ blockSize →
      LittleEndian.word block start 4 % 4294967296 = LittleEndian.word block start 4 := by
    intro start h
    exact Nat.mod_eq_of_lt (capacity_four ▸ word_lt_capacity block start 4 h)
  have hsigned : ∀ word : UInt32, word.toInt32.toUInt32 = word := fun _ => rfl
  simp only [fields, decode, headerWidths, wordsFrom, hsigned, UInt16.toNat_ofNat',
    UInt32.toNat_ofNat', Nat.reducePow]
  rw [htwo (by decide), htwo (by decide), hfour (by decide), hfour (by decide), hfour (by decide),
    hfour (by decide)]

private theorem word_pointer_lt (block : Block) {k : Nat} (hk : k < pointerCount) :
    LittleEndian.word block (inodeHeaderSize + 4 * k) 4 < UInt32.size := by
  have hlast : inodeHeaderSize + 4 * k + 4 ≤ blockSize := by
    unfold pointerCount at hk
    unfold inodeHeaderSize blockSize
    omega
  have hword := word_lt_capacity block _ 4 hlast
  rwa [capacity_four] at hword

theorem pointerBytes_decode (block : Block) : (decode block).pointerBytes =
    fieldBytes (wordsFrom block inodeHeaderSize (List.replicate pointerCount 4)) := by
  have hpointers : (decode block).pointers.toList.map (fun pointer => (4, pointer.toNat)) =
      (List.range pointerCount).map fun k =>
        (4, LittleEndian.word block (inodeHeaderSize + 4 * k) 4) := by
    apply List.ext_getElem
    · simp only [List.length_map, Vector.length_toList, List.length_range]
    · intro k hk _
      rw [List.length_map, Vector.length_toList] at hk
      simp only [decode, List.getElem_map, Vector.getElem_toList, Vector.getElem_ofFn,
        List.getElem_range, UInt32.toNat_ofNat_of_lt' (word_pointer_lt block hk)]
  rw [wordsFrom_replicate, ← hpointers, fieldBytes, List.flatMap_map, pointerBytes]

theorem encode_decode (block : Block) : (decode block).encode = block := by
  have hheader : fieldBytes (decode block).fields = block.toList.take inodeHeaderSize := by
    rw [fields_decode, ← List.drop_zero (l := block.toList)]
    exact fieldBytes_wordsFrom block headerWidths rfl (by decide)
  have hpointers : (decode block).pointerBytes =
      (block.toList.drop inodeHeaderSize).take (4 * pointerCount) := by
    rw [pointerBytes_decode]
    exact fieldBytes_wordsFrom block _ (fieldsWidth_replicate ..) (by decide)
  rw [← Vector.toList_inj, toList_encode, hheader, hpointers, ← List.take_add]
  exact List.take_of_length_le (by rw [Vector.length_toList]; decide)

end BlockFS.Inode
