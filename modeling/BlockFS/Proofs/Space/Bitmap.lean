import BlockFS.Space.Usage
import Mathlib.Data.List.Nodup
import Mathlib.Data.List.Perm.Basic

/-!
What marking and searching do to the bits of a bitmap. `isSet` is the view of a map: marking blocks
changes exactly their bits, and the first fit is the beginning of the list `clear` of clear bits.
-/

set_option autoImplicit false
set_option relaxedAutoImplicit false

namespace BlockFS.Bitmap

/-- The map has a bit for every block. -/
def Fits (b : Bitmap) : Prop := b.blocks.toNat ≤ maxDiskBlocks

private theorem testBit_flag {p q : Nat} (hp : p < 8) (hq : q < 8) :
    (1 <<< UInt8.ofNat p : UInt8).toNat.testBit q = decide (p = q) ∧
      (~~~(1 <<< UInt8.ofNat p) : UInt8).toNat.testBit q = !decide (p = q) := by
  have hall : ∀ p < 8, ∀ q < 8, (1 <<< UInt8.ofNat p : UInt8).toNat.testBit q = decide (p = q) ∧
      (~~~(1 <<< UInt8.ofNat p) : UInt8).toNat.testBit q = !decide (p = q) := by decide
  exact hall p hp q hq

theorem testBit_withBit (byte : UInt8) {p q : Nat} (hp : p < 8) (hq : q < 8) (used : Bool) :
    (withBit byte p used).toNat.testBit q = if p = q then used else byte.toNat.testBit q := by
  obtain ⟨hset, hclear⟩ := testBit_flag hp hq
  cases used with
  | true =>
    rw [withBit, if_pos rfl, UInt8.toNat_or, Nat.testBit_or, hset]
    by_cases h : p = q <;> simp [h]
  | false =>
    rw [withBit, if_neg (by decide), UInt8.toNat_and, Nat.testBit_and, hclear]
    by_cases h : p = q <;> simp [h]

private theorem byte_lt {index : Nat} (h : index < maxDiskBlocks) : index / 8 < blockSize := by
  unfold maxDiskBlocks at h
  unfold blockSize
  omega

theorem isSet_eq (map : Block) {index : Nat} (h : index < maxDiskBlocks) :
    isSet map index = (getElem map (index / 8) (byte_lt h)).toNat.testBit (index % 8) := by
  have hget : Window.get map (index / 8) = .ok (getElem map (index / 8) (byte_lt h)) :=
    dif_pos (byte_lt h)
  have hbit : bit map index =
      .ok ((getElem map (index / 8) (byte_lt h)).toNat.testBit (index % 8)) := by
    rw [bit, hget]
    rfl
  rw [isSet, hbit]

theorem isSet_of_ge (map : Block) {index : Nat} (h : maxDiskBlocks ≤ index) :
    isSet map index = false := by
  have hbyte : ¬ index / 8 < blockSize := by
    unfold maxDiskBlocks at h
    unfold blockSize
    omega
  have hget : Window.get map (index / 8) = .error .outOfBounds := dif_neg hbyte
  have hbit : bit map index = .error .outOfBounds := by
    rw [bit, hget]
    rfl
  rw [isSet, hbit]

theorem map_ext {map map' : Block} (h : ∀ i < maxDiskBlocks, isSet map i = isSet map' i) :
    map = map' := by
  apply Vector.ext
  intro k hk
  apply UInt8.toNat_inj.mp
  apply Nat.eq_of_testBit_eq
  intro q
  by_cases hq : q < 8
  · have hlimit : 8 * k + q < maxDiskBlocks := by
      have hblock : blockSize = 4096 := rfl
      have hmax : maxDiskBlocks = 32768 := rfl
      omega
    have hbyte : (8 * k + q) / 8 = k := by omega
    have hbit : (8 * k + q) % 8 = q := by omega
    have hsame := h (8 * k + q) hlimit
    rw [isSet_eq _ hlimit, isSet_eq _ hlimit] at hsame
    simpa only [hbyte, hbit] using hsame
  · have hpast : ∀ byte : UInt8, byte.toNat.testBit q = false := fun byte =>
      Nat.testBit_lt_two_pow (Nat.lt_of_lt_of_le byte.toNat_lt
        (Nat.pow_le_pow_right Nat.two_pos (Nat.le_of_not_lt hq)))
    rw [hpast, hpast]

theorem setBit_spec (map : Block) {index : Nat} (h : index < maxDiskBlocks) (used : Bool) :
    ∃ map', setBit map index used = .ok map' ∧
      ∀ j, isSet map' j = if index = j then used else isSet map j := by
  have hbyte := byte_lt h
  have hget : Window.get map (index / 8) = .ok map[index / 8] := dif_pos hbyte
  refine ⟨map.set (index / 8) (withBit map[index / 8] (index % 8) used), ?_, ?_⟩
  · rw [setBit, hget]
    exact dif_pos hbyte
  · intro j
    by_cases hj : j < maxDiskBlocks
    · rw [isSet_eq _ hj, isSet_eq _ hj, Vector.getElem_set]
      by_cases hsame : index / 8 = j / 8
      · rw [if_pos hsame, testBit_withBit _ (Nat.mod_lt _ (by decide)) (Nat.mod_lt _ (by decide))]
        simp only [hsame]
        have hindex : index % 8 = j % 8 ↔ index = j := by omega
        simp only [hindex]
      · rw [if_neg hsame, if_neg (by rintro rfl; exact hsame rfl)]
    · have hne : index ≠ j := by
        rintro rfl
        exact hj h
      rw [if_neg hne, isSet_of_ge _ (Nat.le_of_not_lt hj), isSet_of_ge _ (Nat.le_of_not_lt hj)]

def marked (b : Bitmap) (ids : List UInt32) (used : Bool) : Bitmap :=
  match markEach ids used b with
  | .ok _ b' => b'
  | .error _ b' => b'

private theorem markInOrder_spec {b : Bitmap} (hfits : b.Fits) {ids : List UInt32}
    (h : ∀ id ∈ ids, id < b.blocks) (used : Bool) :
    ∃ b', markInOrder used ids b = .ok () b' ∧ b'.blocks = b.blocks ∧
      ∀ j, isSet b'.map j = if j ∈ ids.map UInt32.toNat then used else isSet b.map j := by
  induction ids generalizing b with
  | nil => exact ⟨b, rfl, rfl, fun j => by simp⟩
  | cons id rest ih =>
    have hid : id < b.blocks := h id List.mem_cons_self
    have hlt : id.toNat < maxDiskBlocks := Nat.lt_of_lt_of_le (UInt32.lt_iff_toNat_lt.mp hid) hfits
    obtain ⟨map, hset, hview⟩ := setBit_spec b.map hlt used
    have hmark : mark id used b = .ok () { b with map := map } := by
      rw [mark, if_neg (UInt32.not_le.mpr hid), hset]
    obtain ⟨b', hrest, hblocks, hbits⟩ := ih (b := { b with map := map }) hfits
      fun k hk => h k (List.mem_cons_of_mem id hk)
    refine ⟨b', ?_, hblocks, ?_⟩
    · simp only [markInOrder, bind, EStateM.bind, hmark]
      exact hrest
    · intro j
      rw [hbits, hview]
      by_cases hmem : j ∈ rest.map UInt32.toNat
      · simp [hmem]
      · have hcons : j ∈ (id :: rest).map UInt32.toNat ↔ id.toNat = j := by
          simp only [List.map_cons, List.mem_cons, hmem, or_false, eq_comm]
        rw [if_neg hmem]
        simp only [hcons]

theorem markEach_spec {b : Bitmap} (hfits : b.Fits) {ids : List UInt32}
    (h : ∀ id ∈ ids, id < b.blocks) (used : Bool) :
    markEach ids used b = .ok () (b.marked ids used) ∧ (b.marked ids used).blocks = b.blocks ∧
      ∀ j, isSet (b.marked ids used).map j =
        if j ∈ ids.map UInt32.toNat then used else isSet b.map j := by
  obtain ⟨b', hmark, hblocks, hbits⟩ := markInOrder_spec hfits h used
  have hany : (ids.any fun id => b.blocks ≤ id) = false := by
    rw [List.any_eq_false]
    intro id hid
    simpa using UInt32.not_le.mpr (h id hid)
  have heach : markEach ids used b = .ok () b' := by
    rw [markEach, hany, if_neg (by decide), hmark]
  have hmarked : b.marked ids used = b' := by rw [marked, heach]
  rw [hmarked]
  exact ⟨heach, hblocks, hbits⟩

theorem marked_of_clear {b : Bitmap} (hfits : b.Fits) {ids : List UInt32}
    (h : ∀ id ∈ ids, id < b.blocks ∧ isSet b.map id.toNat = false) : b.marked ids false = b := by
  obtain ⟨-, hblocks, hbits⟩ := markEach_spec hfits (fun id hid => (h id hid).1) false
  have hmap : (b.marked ids false).map = b.map := by
    apply map_ext
    intro i _
    rw [hbits]
    split
    · rename_i hmem
      obtain ⟨id, hid, rfl⟩ := List.mem_map.mp hmem
      exact (h id hid).2.symm
    · rfl
  exact congrArg₂ Bitmap.mk hmap hblocks

/-- The positions of the clear bits from `start` on, in ascending order. -/
def clear (b : Bitmap) (start : Nat) : List Nat :=
  (List.range' start (b.blocks.toNat - start)).filter fun i => !isSet b.map i

theorem mem_clear {b : Bitmap} {start i : Nat} :
    i ∈ b.clear start ↔ start ≤ i ∧ i < b.blocks.toNat ∧ isSet b.map i = false := by
  simp only [clear, List.mem_filter, List.mem_range'_1, Bool.not_eq_true']
  constructor
  · rintro ⟨⟨hle, hlt⟩, hfree⟩
    exact ⟨hle, by omega, hfree⟩
  · rintro ⟨hle, hlt, hfree⟩
    exact ⟨⟨hle, by omega⟩, hfree⟩

theorem nodup_clear (b : Bitmap) (start : Nat) : (b.clear start).Nodup :=
  List.Nodup.filter _ List.nodup_range'

theorem length_clear_le (b : Bitmap) (start : Nat) :
    (b.clear start).length ≤ b.blocks.toNat - start := by
  have hle := List.length_filter_le (fun i => !isSet b.map i)
    (List.range' start (b.blocks.toNat - start))
  rwa [List.length_range'] at hle

theorem usedFrom_eq {b : Bitmap} (hfits : b.Fits) (start : UInt32) :
    b.usedFrom start = .ok (b.blocks.toNat - start.toNat - (b.clear start.toNat).length) := by
  have hsplit := List.length_eq_countP_add_countP (isSet b.map)
    (l := List.range' start.toNat (b.blocks.toNat - start.toNat))
  have hclear : (b.clear start.toNat).length =
      (List.range' start.toNat (b.blocks.toNat - start.toNat)).countP
        fun i => decide ¬ isSet b.map i = true := by
    rw [clear, List.countP_eq_length_filter]
    congr 1
    apply List.filter_congr
    intro i _
    cases isSet b.map i <;> rfl
  rw [List.length_range', ← hclear] at hsplit
  rw [usedFrom, if_neg fun h => Nat.not_lt.mpr hfits h.2]
  congr 1
  omega

private theorem isFree_eq {b : Bitmap} (hfits : b.Fits) {i : Nat} (h : i < b.blocks.toNat) :
    b.isFree (UInt32.ofNat i) = .ok (!isSet b.map i) := by
  have hsize : i < UInt32.size := Nat.lt_trans h b.blocks.toNat_lt
  have hvalue : (UInt32.ofNat i).toNat = i := UInt32.toNat_ofNat_of_lt' hsize
  have hlimit : i < maxDiskBlocks := Nat.lt_of_lt_of_le h hfits
  have hlt : ¬ b.blocks ≤ UInt32.ofNat i := by
    rw [UInt32.le_iff_toNat_le, hvalue]
    omega
  have hget : Window.get b.map (i / 8) = .ok (getElem b.map (i / 8) (byte_lt hlimit)) :=
    dif_pos (byte_lt hlimit)
  have hbit : bit b.map i = .ok (isSet b.map i) := by
    rw [isSet_eq _ hlimit, bit, hget]
    rfl
  rw [isFree, if_neg hlt, hvalue, hbit]
  rfl

/-- The search takes clear bits from the beginning and gives up when too few are left. -/
private theorem firstFitFrom_eq {b : Bitmap} (hfits : b.Fits) (remaining wanted index : Nat)
    (h : index + remaining ≤ b.blocks.toNat) :
    b.firstFitFrom remaining wanted index =
      if wanted ≤ ((List.range' index remaining).filter fun i => !isSet b.map i).length then
        .ok ((((List.range' index remaining).filter fun i => !isSet b.map i).take wanted).map
          UInt32.ofNat)
      else .error (.refused .noSpace) := by
  -- The search goes down with the positions that remain; a set bit keeps what is wanted.
  induction remaining generalizing wanted index with
  | zero =>
    cases wanted with
    | zero => simp [firstFitFrom]
    | succ wanted => simp [firstFitFrom]
  | succ remaining ih =>
    cases wanted with
    | zero => simp [firstFitFrom]
    | succ wanted =>
      have hnext := fun w => ih w (index + 1) (by omega)
      have hfree := isFree_eq hfits (i := index) (by omega)
      rw [List.range'_succ, List.filter_cons]
      simp only [firstFitFrom, hfree, bind, Except.bind]
      cases hset : isSet b.map index with
      | true =>
        simp only [Bool.not_true, Bool.false_eq_true, if_false]
        exact hnext (wanted + 1)
      | false =>
        simp only [Bool.not_false, if_true, hnext wanted, List.length_cons,
          Nat.add_le_add_iff_right]
        by_cases hcount : wanted ≤
            ((List.range' (index + 1) remaining).filter fun i => !isSet b.map i).length
        · rw [if_pos hcount, if_pos hcount]
          rfl
        · rw [if_neg hcount, if_neg hcount]

theorem firstFit_eq {b : Bitmap} (hfits : b.Fits) (start : UInt32) {wanted : Nat}
    (hwanted : wanted < requestLimit) :
    b.firstFit start wanted =
      if wanted ≤ (b.clear start.toNat).length then
        .ok (((b.clear start.toNat).take wanted).map UInt32.ofNat)
      else .error (.refused .noSpace) := by
  rw [firstFit, if_neg (Nat.not_le.mpr hwanted)]
  by_cases hstart : start.toNat ≤ b.blocks.toNat
  · exact firstFitFrom_eq hfits _ _ _ (by omega)
  · have hnone : b.blocks.toNat - start.toNat = 0 := by omega
    rw [clear, hnone]
    cases wanted <;> simp [firstFitFrom]

theorem firstFit_zero (b : Bitmap) (start : UInt32) : b.firstFit start 0 = .ok [] := by
  rw [firstFit, if_neg (by decide), firstFitFrom]

/-- Free blocks behind the reserved ones, as many as wanted and none of them twice. -/
structure Offers (b : Bitmap) (wanted : Nat) (ids : List UInt32) : Prop where
  length : ids.length = wanted
  nodup : ids.Nodup
  clear : ∀ id ∈ ids, id.toNat ∈ b.clear reservedBlocks.toNat

private theorem toNat_of_mem_clear {b : Bitmap} {start i : Nat} (h : i ∈ b.clear start) :
    (UInt32.ofNat i).toNat = i :=
  UInt32.toNat_ofNat_of_lt' (Nat.lt_trans (mem_clear.mp h).2.1 b.blocks.toNat_lt)

theorem of_firstFit {b : Bitmap} (hfits : b.Fits) {start : UInt32} {wanted : Nat}
    {ids : List UInt32} (h : b.firstFit start wanted = .ok ids) :
    wanted ≤ (b.clear start.toNat).length ∧
      ids.map UInt32.toNat = (b.clear start.toNat).take wanted := by
  have hwanted : wanted < requestLimit := by
    by_contra hlimit
    rw [firstFit, if_pos (Nat.le_of_not_lt hlimit)] at h
    cases h
  rw [firstFit_eq hfits start hwanted] at h
  split at h
  · cases h
    refine ⟨‹_›, ?_⟩
    rw [List.map_map]
    refine (List.map_congr_left fun i hi => ?_).trans (List.map_id _)
    exact toNat_of_mem_clear (List.mem_of_mem_take hi)
  · cases h

theorem offers_of_firstFit {b : Bitmap} (hfits : b.Fits) {wanted : Nat} {ids : List UInt32}
    (h : b.firstFit reservedBlocks wanted = .ok ids) : b.Offers wanted ids := by
  obtain ⟨hcount, hids⟩ := of_firstFit hfits h
  refine ⟨?_, ?_, ?_⟩
  · rw [← ids.length_map UInt32.toNat, hids, List.length_take, Nat.min_eq_left hcount]
  · refine List.Nodup.of_map UInt32.toNat ?_
    rw [hids]
    exact (nodup_clear b reservedBlocks.toNat).sublist (List.take_sublist _ _)
  · intro id hid
    refine List.mem_of_mem_take (i := wanted) ?_
    rw [← hids]
    exact List.mem_map_of_mem hid

private theorem length_clear_of_added {b b' : Bitmap} {start : Nat} {added : List Nat}
    (hnodup : added.Nodup) (hdisjoint : ∀ i ∈ added, i ∉ b'.clear start)
    (h : ∀ i, i ∈ b.clear start ↔ i ∈ b'.clear start ∨ i ∈ added) :
    (b.clear start).length = (b'.clear start).length + added.length := by
  have hboth : (b'.clear start ++ added).Nodup :=
    List.Nodup.append (nodup_clear b' start) hnodup
      fun i hi hadded => hdisjoint i hadded hi
  have hperm : (b.clear start).Perm (b'.clear start ++ added) :=
    (List.perm_ext_iff_of_nodup (nodup_clear b start) hboth).mpr fun i => by
      rw [h, List.mem_append]
  rw [hperm.length_eq, List.length_append]

theorem nodup_map_toNat {ids : List UInt32} (h : ids.Nodup) : (ids.map UInt32.toNat).Nodup :=
  List.Nodup.map (fun _ _ he => UInt32.toNat_inj.mp he) h

theorem length_clear_allocated {b : Bitmap} (hfits : b.Fits) {start : Nat} {ids : List UInt32}
    (hnodup : ids.Nodup) (h : ∀ id ∈ ids, id.toNat ∈ b.clear start) :
    (b.clear start).length = ((b.marked ids true).clear start).length + ids.length := by
  have hrange : ∀ id ∈ ids, id < b.blocks := fun id hid =>
    UInt32.lt_iff_toNat_lt.mpr (mem_clear.mp (h id hid)).2.1
  obtain ⟨-, hblocks, hbits⟩ := markEach_spec hfits hrange true
  rw [← ids.length_map UInt32.toNat]
  refine length_clear_of_added (nodup_map_toNat hnodup) ?_ ?_
  · intro i hi
    rw [mem_clear, hbits, if_pos hi]
    simp
  · intro i
    rw [mem_clear, mem_clear, hblocks, hbits]
    by_cases hi : i ∈ ids.map UInt32.toNat
    · obtain ⟨id, hid, rfl⟩ := List.mem_map.mp hi
      simpa [hi] using mem_clear.mp (h id hid)
    · simp [hi]

theorem Offers.wanted_le {b : Bitmap} (hfits : b.Fits) {wanted : Nat} {ids : List UInt32}
    (h : b.Offers wanted ids) : wanted ≤ (b.clear reservedBlocks.toNat).length := by
  rw [length_clear_allocated hfits h.nodup h.clear, h.length]
  exact Nat.le_add_left _ _

theorem length_clear_released {b : Bitmap} (hfits : b.Fits) {start : Nat} {ids : List UInt32}
    (hnodup : ids.Nodup)
    (h : ∀ id ∈ ids, start ≤ id.toNat ∧ id < b.blocks ∧ isSet b.map id.toNat = true) :
    ((b.marked ids false).clear start).length = (b.clear start).length + ids.length := by
  obtain ⟨-, hblocks, hbits⟩ := markEach_spec hfits (fun id hid => (h id hid).2.1) false
  rw [← ids.length_map UInt32.toNat]
  refine length_clear_of_added (nodup_map_toNat hnodup) ?_ ?_
  · intro i hi
    obtain ⟨id, hid, rfl⟩ := List.mem_map.mp hi
    rw [mem_clear, (h id hid).2.2]
    simp
  · intro i
    rw [mem_clear, mem_clear, hblocks, hbits]
    by_cases hi : i ∈ ids.map UInt32.toNat
    · obtain ⟨id, hid, rfl⟩ := List.mem_map.mp hi
      have hid' := h id hid
      simp [hi, hid'.1, UInt32.lt_iff_toNat_lt.mp hid'.2.1]
    · simp [hi]

/-! ### One search after another -/

private theorem filter_notMem_take {α : Type} [DecidableEq α] {l : List α} (h : l.Nodup) (n : Nat) :
    (l.filter fun a => a ∉ l.take n) = l.drop n := by
  have hdisjoint := List.disjoint_take_drop h (Nat.le_refl n)
  conv_lhs => rw [← List.take_append_drop n l]
  rw [List.filter_append, List.take_append_drop, List.filter_eq_nil_iff.mpr, List.nil_append,
    List.filter_eq_self]
  · intro a ha
    exact decide_eq_true fun htake => hdisjoint htake ha
  · intro a ha
    simpa using ha

private theorem lt_blocks_of_clear {b : Bitmap} {start wanted : Nat} {ids : List UInt32}
    (hids : ids.map UInt32.toNat = (b.clear start).take wanted) : ∀ id ∈ ids, id < b.blocks := by
  intro id hid
  have hmem : id.toNat ∈ (b.clear start).take wanted := hids ▸ List.mem_map_of_mem hid
  exact UInt32.lt_iff_toNat_lt.mpr (mem_clear.mp (List.mem_of_mem_take hmem)).2.1

theorem clear_marked {b : Bitmap} (hfits : b.Fits) {start wanted : Nat} {ids : List UInt32}
    (hids : ids.map UInt32.toNat = (b.clear start).take wanted) :
    (b.marked ids true).clear start = (b.clear start).drop wanted := by
  obtain ⟨-, hblocks, hbits⟩ := markEach_spec hfits (lt_blocks_of_clear hids) true
  rw [← filter_notMem_take (nodup_clear b start) wanted, clear, hblocks]
  conv_rhs => rw [clear, List.filter_filter]
  apply List.filter_congr
  intro i _
  rw [hbits, hids, ← clear]
  by_cases hi : i ∈ (b.clear start).take wanted
  · rw [if_pos hi, decide_eq_false (not_not.mpr hi), Bool.false_and]
    rfl
  · rw [if_neg hi, decide_eq_true hi, Bool.true_and]

/-- Searching twice, with the blocks found first marked in between, finds what one search finds. -/
theorem firstFit_append {b : Bitmap} (hfits : b.Fits) {start : UInt32} {wanted more : Nat}
    {first second : List UInt32} (hfirst : b.firstFit start wanted = .ok first)
    (hsecond : (b.marked first true).firstFit start more = .ok second) :
    b.firstFit start (wanted + more) = .ok (first ++ second) := by
  obtain ⟨hcount, hids⟩ := of_firstFit hfits hfirst
  have hfits' : (b.marked first true).Fits := by
    rwa [Fits, (markEach_spec hfits (lt_blocks_of_clear hids) true).2.1]
  obtain ⟨hcount', hids'⟩ := of_firstFit hfits' hsecond
  rw [clear_marked hfits hids] at hcount' hids'
  rw [List.length_drop] at hcount'
  have htotal : wanted + more ≤ (b.clear start.toNat).length := by omega
  have hlimit : wanted + more < requestLimit := by
    have hclear := b.length_clear_le start.toNat
    have hbits : b.blocks.toNat ≤ maxDiskBlocks := hfits
    have hmax : maxDiskBlocks = 32768 := rfl
    have hrequest : requestLimit = 2305843009213693952 := rfl
    omega
  have hword : ∀ ids : List UInt32, (ids.map UInt32.toNat).map UInt32.ofNat = ids := by
    intro ids
    rw [List.map_map]
    exact (List.map_congr_left fun id _ => UInt32.ofNat_toNat).trans (List.map_id _)
  rw [firstFit_eq hfits start hlimit, if_pos htotal, List.take_add, ← hids, ← hids',
    ← List.map_append, hword]

end BlockFS.Bitmap
