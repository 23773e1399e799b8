import BlockFS.Proofs.Codec.Words
import BlockFS.Record.Directory

/-!
Slots and directories that are written to a block are read back from it. The number of an inode has
31 bits in a slot, so this holds for directories all of whose numbers are that small; one that was
read from a block has no others. What was read from a block gives back every byte of it, so a slot
that is given another name differs from what it was in the name field alone.
-/

set_option autoImplicit false
set_option relaxedAutoImplicit false

namespace BlockFS

/-- What the inode numbers in slots stay below. -/
abbrev slotLimit : Nat := 2147483648

namespace Slot

theorem toList_encode (s : Slot) : s.encode.toList =
    LittleEndian.encode 4 (2 * s.inode.toNat + s.used.toNat) ++ s.name.toList := by
  rw [encode, Vector.toList_append, LittleEndian.toList_bytes]

theorem name_decode_encode (s : Slot) : (decode s.encode).name = s.name := by
  rw [decode, ← Vector.toList_inj, Vector.toList_extract, toList_encode,
    List.drop_left' (LittleEndian.length_encode 4 _)]
  exact List.take_of_length_le (by rw [Vector.length_toList]; decide)

theorem decode_encode {s : Slot} (h : s.inode.toNat < slotLimit) : decode s.encode = s := by
  have hused := s.used.toNat_lt
  have hlimit : slotLimit = 2147483648 := rfl
  have hword : LittleEndian.word s.encode 0 4 = 2 * s.inode.toNat + s.used.toNat :=
    LittleEndian.word_of_toList [] _ s.toList_encode rfl (by
      rw [LittleEndian.capacity_four]
      omega)
  have hname : s.encode.extract 4 slotSize = s.name := s.name_decode_encode
  have hinode : (2 * s.inode.toNat + s.used.toNat) / 2 = s.inode.toNat := by omega
  have hbit : ((2 * s.inode.toNat + s.used.toNat) % 2 == 1) = s.used := by
    cases s.used <;> simp [Nat.add_mod]
  rw [decode, hword, hname, hinode, hbit, UInt32.ofNat_toNat]

theorem encode_decode (record : Vector UInt8 slotSize) : (decode record).encode = record := by
  have hword := LittleEndian.word_lt_capacity record 0 4 (by decide)
  have hvalue : 2 * (decode record).inode.toNat + (decode record).used.toNat =
      LittleEndian.word record 0 4 := by
    have hbit : (decode record).used.toNat = LittleEndian.word record 0 4 % 2 := by
      rcases Nat.mod_two_eq_zero_or_one (LittleEndian.word record 0 4) with hmod | hmod <;>
        simp [decode, hmod]
    rw [LittleEndian.capacity_four] at hword
    rw [hbit, decode, UInt32.toNat_ofNat']
    omega
  have hfront : LittleEndian.encode 4 (LittleEndian.word record 0 4) = record.toList.take 4 :=
    LittleEndian.encode_word record (by decide)
  have hback : (decode record).name.toList = record.toList.drop 4 := by
    rw [decode, Vector.toList_extract]
    exact List.take_of_length_le (Nat.le_of_eq (by rw [List.length_drop, Vector.length_toList]))
  rw [← Vector.toList_inj, toList_encode, hvalue, hfront, hback, List.take_append_drop]

theorem rename_rename (s : Slot) (name other : Name) :
    (s.rename name).rename other = s.rename other := rfl

theorem rename_of_name {s : Slot} {name : Name} (h : s.name = name.toField) :
    s.rename name = s := by
  rw [rename, ← h]

theorem get_encode_rename (s : Slot) (name : Name) {j : Fin slotSize} (hj : j.val < 4) :
    (s.rename name).encode.get j = s.encode.get j := by
  have hfirst : ∀ t : Slot, t.encode.get j =
      (LittleEndian.bytes 4 (2 * t.inode.toNat + t.used.toNat))[j.val] := fun t =>
    Vector.getElem_append_left hj
  rw [hfirst, hfirst]
  rfl

private theorem getElem?_toList_encode (s : Slot) (j : Fin slotSize) :
    s.encode.toList[j.val]? = some (s.encode.get j) := by
  rw [List.getElem?_eq_getElem (by rw [Vector.length_toList]; exact j.isLt), Vector.getElem_toList]
  rfl

private theorem toList_encode_cons (s : Slot) : s.encode.toList =
    UInt8.ofNat (2 * s.inode.toNat + s.used.toNat) ::
      (LittleEndian.encode 3 (s.inode.toNat / 128) ++ s.name.toList) := by
  have hused := s.used.toNat_lt
  have hrest : (2 * s.inode.toNat + s.used.toNat) / 256 = s.inode.toNat / 128 := by omega
  rw [toList_encode, LittleEndian.encode, hrest, List.cons_append]

theorem get_encode_release (s : Slot) {j : Fin slotSize} (hj : j.val ≠ 0) :
    s.release.encode.get j = s.encode.get j := by
  obtain ⟨i, hi⟩ := Nat.exists_eq_succ_of_ne_zero hj
  have hrest : s.release.encode.toList[i + 1]? = s.encode.toList[i + 1]? := by
    rw [toList_encode_cons, toList_encode_cons, List.getElem?_cons_succ, List.getElem?_cons_succ]
    rfl
  rw [← Nat.succ_eq_add_one, ← hi, getElem?_toList_encode, getElem?_toList_encode] at hrest
  exact Option.some.inj hrest

/-- The lowest bit of the first byte says whether a slot is used, the others belong to the inode
number. -/
theorem testBit_encode (s : Slot) {bit : Nat} (hbit : bit < 8) :
    (s.encode.get ⟨0, by decide⟩).toNat.testBit bit =
      if bit = 0 then s.used else s.inode.toNat.testBit (bit - 1) := by
  have hfirst := s.getElem?_toList_encode ⟨0, by decide⟩
  rw [toList_encode_cons] at hfirst
  rw [← Option.some.inj hfirst, UInt8.toNat_ofNat', Nat.testBit_mod_two_pow, decide_eq_true hbit,
    Bool.true_and]
  cases bit with
  | zero => cases s.used <;> simp [Nat.testBit_zero]
  | succ bit =>
    have hhalf : (2 * s.inode.toNat + s.used.toNat) / 2 = s.inode.toNat := by
      have hused := s.used.toNat_lt
      omega
    rw [Nat.testBit_succ, hhalf, if_neg (Nat.succ_ne_zero bit), Nat.add_sub_cancel]

theorem inode_decode_lt (record : Vector UInt8 slotSize) :
    (decode record).inode.toNat < slotLimit := by
  have hword := LittleEndian.word_lt_capacity record 0 4 (by decide)
  have hlimit : slotLimit = 2147483648 := rfl
  rw [LittleEndian.capacity_four] at hword
  rw [decode, UInt32.toNat_ofNat']
  omega

end Slot

namespace Directory

theorem get_put (d : Directory) (position k : Fin slotCount) (slot : Slot) :
    (d.put position slot).get k = if position = k then slot else d.get k := by
  have hset : (d.put position slot).get k = if position.val = k.val then slot else d.get k :=
    Vector.getElem_set position.isLt k.isLt
  simpa only [Fin.ext_iff] using hset

theorem record_encode (d : Directory) (k : Fin slotCount) :
    record d.encode k = (d.get k).encode := by
  apply Vector.ext
  intro j hj
  have hquot : (32 * k.val + j) / 32 = k.val := by
    unfold slotSize at hj
    omega
  have hrem : (32 * k.val + j) % 32 = j := by
    unfold slotSize at hj
    omega
  have hflat : getElem (d.map Slot.encode).flatten (32 * k.val + j) (record_lt k ⟨j, hj⟩) =
      ((d.map Slot.encode)[k.val])[j] := by
    rw [Vector.getElem_flatten]
    simp only [hquot, hrem]
  rw [record, Vector.getElem_ofFn]
  refine hflat.trans ?_
  rw [Vector.getElem_map]
  rfl

theorem get_decode (block : Block) (k : Fin slotCount) :
    (decode block).get k = Slot.decode (record block k) :=
  Vector.getElem_ofFn k.isLt

theorem inode_get_decode_lt (block : Block) (k : Fin slotCount) :
    ((decode block).get k).inode.toNat < slotLimit := by
  rw [get_decode]
  exact Slot.inode_decode_lt _

theorem ext_get {d e : Directory} (h : ∀ k, d.get k = e.get k) : d = e :=
  Vector.ext fun i hi => h ⟨i, hi⟩

theorem decode_encode {d : Directory} (h : ∀ k, (d.get k).inode.toNat < slotLimit) :
    decode d.encode = d := by
  apply ext_get
  intro k
  rw [get_decode, record_encode, Slot.decode_encode (h k)]

theorem decode_encode_put (block : Block) (position : Fin slotCount) {slot : Slot}
    (h : slot.inode.toNat < slotLimit) :
    decode ((decode block).put position slot).encode = (decode block).put position slot := by
  apply decode_encode
  intro k
  rw [get_put]
  split
  · exact h
  · exact inode_get_decode_lt block k

/-! ### Bytes of a block of slots -/

theorem get_eq_record (block : Block) (i : Fin blockSize) : block.get i =
    (record block ⟨i.val / slotSize, Nat.div_lt_of_lt_mul i.isLt⟩).get
      ⟨i.val % slotSize, Nat.mod_lt _ (by decide)⟩ := by
  have hrecord := Vector.getElem_ofFn (f := fun j : Fin slotSize => block.get
    ⟨slotSize * (i.val / slotSize) + j.val, record_lt ⟨_, Nat.div_lt_of_lt_mul i.isLt⟩ j⟩)
    (Nat.mod_lt i.val (by decide : 0 < slotSize))
  refine Eq.trans ?_ hrecord.symm
  exact congrArg block.get (Fin.ext (Nat.div_add_mod i.val slotSize).symm)

theorem encode_decode (block : Block) : (decode block).encode = block := by
  apply Vector.ext
  intro i hi
  show (decode block).encode.get ⟨i, hi⟩ = block.get ⟨i, hi⟩
  rw [get_eq_record, get_eq_record block, record_encode, get_decode, Slot.encode_decode]

def nameStart (k : Fin slotCount) : Nat := slotSize * k.val + 4

theorem get_encode_put_rename (block : Block) (k : Fin slotCount) (name : Name)
    {i : Fin blockSize} (hi : i.val < nameStart k ∨ nameStart k + nameField ≤ i.val) :
    ((decode block).put k (((decode block).get k).rename name)).encode.get i = block.get i := by
  rw [get_eq_record, get_eq_record block, record_encode, get_put]
  split
  · rename_i hk
    have hword : i.val % slotSize < 4 := by
      have hslot : k.val = i.val / slotSize := congrArg Fin.val hk
      have hmod := Nat.mod_lt i.val (show 0 < slotSize by decide)
      have hsplit := Nat.div_add_mod i.val slotSize
      have hwidth : slotSize = 4 + nameField := rfl
      rw [nameStart, hslot] at hi
      omega
    rw [Slot.get_encode_rename _ _ hword, hk, get_decode, Slot.encode_decode]
  · rw [get_decode, Slot.encode_decode]

theorem put_put (d : Directory) (k : Fin slotCount) (slot other : Slot) :
    (d.put k slot).put k other = d.put k other := by
  apply ext_get
  intro j
  rw [get_put, get_put, get_put]
  split <;> rfl

theorem put_get (d : Directory) (k : Fin slotCount) : d.put k (d.get k) = d := by
  apply ext_get
  intro j
  rw [get_put]
  split
  · rename_i hk
    rw [hk]
  · rfl

theorem put_rename_rename (d : Directory) {k : Fin slotCount} {name : Name}
    (h : (d.get k).name = name.toField) (other : Name) :
    (d.put k ((d.get k).rename other)).put k
      (((d.put k ((d.get k).rename other)).get k).rename name) = d := by
  rw [put_put, get_put, if_pos rfl, Slot.rename_rename, Slot.rename_of_name h, put_get]

/-! ### Blank slots -/

theorem get_empty (k : Fin slotCount) : empty.get k = Slot.blank := Vector.getElem_replicate k.isLt

theorem encode_empty : encode empty = Block.zero := by
  have hblank : Slot.blank.encode = Vector.replicate slotSize 0 := by decide
  apply Vector.ext
  intro i hi
  refine (Vector.getElem_flatten hi).trans ?_
  simp only [empty, Vector.map_replicate, Vector.getElem_replicate, hblank, Block.zero]

theorem decode_zero : decode Block.zero = empty := by
  rw [← encode_empty]
  apply decode_encode
  intro k
  rw [get_empty]
  decide

end Directory

end BlockFS
