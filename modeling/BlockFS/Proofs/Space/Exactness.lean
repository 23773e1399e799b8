import BlockFS.Proofs.Space.Bitmap

/-!
Searching and marking, bit by bit. A search finds the smallest clear positions or refuses, marking
changes the bits it is asked to change or none, and a map in which found blocks are marked is the
map with so many more used blocks, and goes back to what it was.
-/

set_option autoImplicit false
set_option relaxedAutoImplicit false

namespace BlockFS.Bitmap

/-- Clear positions from `start` on, as many as wanted, in ascending order, and all clear positions
that are left out lie behind them. -/
structure FirstClear (b : Bitmap) (start : UInt32) (wanted : Nat) (ids : List UInt32) : Prop where
  length : ids.length = wanted
  ascending : ids.Pairwise (· < ·)
  clear : ∀ id ∈ ids, start ≤ id ∧ id < b.blocks ∧ isSet b.map id.toNat = false
  smallest : ∀ {id}, start ≤ id → id < b.blocks → isSet b.map id.toNat = false → id ∉ ids →
    ∀ other ∈ ids, other < id

theorem pairwise_clear (b : Bitmap) (start : Nat) : (b.clear start).Pairwise (· < ·) :=
  List.Pairwise.filter _ List.pairwise_lt_range'

theorem firstClear_of_firstFit {b : Bitmap} (hfits : b.Fits) {start : UInt32} {wanted : Nat}
    {ids : List UInt32} (h : b.firstFit start wanted = .ok ids) : b.FirstClear start wanted ids := by
  obtain ⟨hcount, hids⟩ := of_firstFit hfits h
  have hordered := b.pairwise_clear start.toNat
  rw [← List.take_append_drop wanted (b.clear start.toNat), ← hids,
    List.pairwise_append] at hordered
  obtain ⟨hascending, -, hbehind⟩ := hordered
  refine ⟨?_, ?_, ?_, ?_⟩
  · rw [← ids.length_map UInt32.toNat, hids, List.length_take, Nat.min_eq_left hcount]
  · exact (List.pairwise_map.mp hascending).imp UInt32.lt_iff_toNat_lt.mpr
  · intro id hid
    have hmem : id.toNat ∈ (b.clear start.toNat).take wanted := hids ▸ List.mem_map_of_mem hid
    obtain ⟨hstart, hblocks, hclear⟩ := mem_clear.mp (List.mem_of_mem_take hmem)
    exact ⟨UInt32.le_iff_toNat_le.mpr hstart, UInt32.lt_iff_toNat_lt.mpr hblocks, hclear⟩
  · intro id hstart hblocks hclear hleft other hother
    have hmem : id.toNat ∈ b.clear start.toNat := mem_clear.mpr
      ⟨UInt32.le_iff_toNat_le.mp hstart, UInt32.lt_iff_toNat_lt.mp hblocks, hclear⟩
    rw [← List.take_append_drop wanted (b.clear start.toNat), ← hids, List.mem_append] at hmem
    rcases hmem with hfound | hrest
    · obtain ⟨found, hfound, heq⟩ := List.mem_map.mp hfound
      rw [UInt32.toNat_inj] at heq
      exact absurd (heq ▸ hfound) hleft
    · exact UInt32.lt_iff_toNat_lt.mpr (hbehind _ (List.mem_map_of_mem hother) _ hrest)

theorem exists_firstClear {b : Bitmap} (hfits : b.Fits) {start : UInt32} {wanted : Nat}
    (h : wanted ≤ (b.clear start.toNat).length) :
    ∃ ids, b.firstFit start wanted = .ok ids ∧ b.FirstClear start wanted ids := by
  have hlimit : wanted < requestLimit := by
    have hclear := b.length_clear_le start.toNat
    have hblocks : b.blocks.toNat ≤ maxDiskBlocks := hfits
    unfold maxDiskBlocks at hblocks
    unfold requestLimit
    omega
  have hfound := firstFit_eq hfits start hlimit
  rw [if_pos h] at hfound
  exact ⟨_, hfound, firstClear_of_firstFit hfits hfound⟩

theorem markEach_eq_refused {b : Bitmap} {ids : List UInt32} (h : ∃ id ∈ ids, b.blocks ≤ id)
    (used : Bool) : markEach ids used b = .error (.refused .io) b := by
  have hany : (ids.any fun id => b.blocks ≤ id) = true := by simpa using h
  rw [markEach, if_pos hany]

theorem marked_marked {b : Bitmap} (hfits : b.Fits) {ids : List UInt32}
    (h : ∀ id ∈ ids, id < b.blocks ∧ isSet b.map id.toNat = false) :
    markEach ids false (b.marked ids true) = .ok () b := by
  obtain ⟨-, hblocks, hset⟩ := markEach_spec hfits (fun id hid => (h id hid).1) true
  have hfits' : (b.marked ids true).Fits := by rwa [Fits, hblocks]
  have hrange : ∀ id ∈ ids, id < (b.marked ids true).blocks := by
    intro id hid
    rw [hblocks]
    exact (h id hid).1
  obtain ⟨hunmark, hblocks', hclear⟩ := markEach_spec hfits' hrange false
  have hmap : ((b.marked ids true).marked ids false).map = b.map := by
    apply map_ext
    intro i _
    rw [hclear, hset]
    split
    · rename_i hmem
      obtain ⟨id, hid, rfl⟩ := List.mem_map.mp hmem
      exact (h id hid).2.symm
    · rfl
  have hsame : (b.marked ids true).marked ids false = b :=
    congrArg₂ Bitmap.mk hmap (hblocks'.trans hblocks)
  rw [hunmark, hsame]

theorem usedFrom_marked {b : Bitmap} (hfits : b.Fits) {start : UInt32} {wanted : Nat}
    {ids : List UInt32} (h : b.firstFit start wanted = .ok ids) : ∃ count,
      b.usedFrom start = .ok count ∧ (b.marked ids true).usedFrom start = .ok (count + wanted) := by
  obtain ⟨hcount, hids⟩ := of_firstFit hfits h
  have hblocks : (b.marked ids true).blocks = b.blocks :=
    (markEach_spec hfits (fun id hid => ((firstClear_of_firstFit hfits h).clear id hid).2.1)
      true).2.1
  have hfits' : (b.marked ids true).Fits := by rwa [Fits, hblocks]
  have hclear := b.length_clear_le start.toNat
  refine ⟨_, usedFrom_eq hfits start, ?_⟩
  rw [usedFrom_eq hfits' start, clear_marked hfits hids, List.length_drop, hblocks]
  congr 1
  omega

/-- What searches and marks do to a bitmap, and what they leave as it was. -/
structure Exact (b : Bitmap) : Prop where
  bits : ∀ {i byte}, b.map[i / 8]? = some byte → isSet b.map i = byte.toNat.testBit (i % 8)
  found : ∀ {start : UInt32} {wanted}, wanted ≤ (b.clear start.toNat).length →
    ∃ ids, b.firstFit start wanted = .ok ids ∧ b.FirstClear start wanted ids
  scarce : ∀ {start : UInt32} {wanted}, (b.clear start.toNat).length < wanted →
    wanted < requestLimit → b.firstFit start wanted = .error (.refused .noSpace)
  unlisted : ∀ {start : UInt32} {wanted}, requestLimit ≤ wanted →
    b.firstFit start wanted = .error .overflow
  marks : ∀ {ids : List UInt32} (used : Bool), (∀ id ∈ ids, id < b.blocks) →
    ∃ b', markEach ids used b = .ok () b' ∧ b'.blocks = b.blocks ∧
      ∀ i, isSet b'.map i = if i ∈ ids.map UInt32.toNat then used else isSet b.map i
  refuses : ∀ {ids : List UInt32} (used : Bool), (∃ id ∈ ids, b.blocks ≤ id) →
    markEach ids used b = .error (.refused .io) b
  counts : ∀ {start : UInt32} {wanted ids}, b.firstFit start wanted = .ok ids →
    ∃ b' count, markEach ids true b = .ok () b' ∧ b.usedFrom start = .ok count ∧
      b'.usedFrom start = .ok (count + wanted) ∧ markEach ids false b' = .ok () b

/-- Searches and marks are exact on every map with a bit for every block. -/
theorem Fits.bits_exact {b : Bitmap} (hfits : b.Fits) : b.Exact where
  bits {i byte} hbyte := by
    obtain ⟨hlt, rfl⟩ := Vector.getElem?_eq_some_iff.mp hbyte
    exact isSet_eq b.map (by unfold blockSize at hlt; unfold maxDiskBlocks; omega)
  found hclear := exists_firstClear hfits hclear
  scarce {start wanted} hscarce hlimit := by
    rw [firstFit_eq hfits start hlimit, if_neg (Nat.not_le.mpr hscarce)]
  unlisted hlimit := if_pos hlimit
  marks {ids} used hrange := ⟨b.marked ids used, markEach_spec hfits hrange used⟩
  refuses used hpast := markEach_eq_refused hpast used
  counts {start wanted ids} hfound := by
    have hids : ∀ id ∈ ids, id < b.blocks ∧ isSet b.map id.toNat = false := fun id hid =>
      ((firstClear_of_firstFit hfits hfound).clear id hid).2
    obtain ⟨count, hcount, hcounted⟩ := usedFrom_marked hfits hfound
    exact ⟨b.marked ids true, count, (markEach_spec hfits (fun id hid => (hids id hid).1) true).1,
      hcount, hcounted, marked_marked hfits hids⟩

/-- The blocks 0 to 3 and 5 of sixteen are used. -/
def withHole : Bitmap := ⟨Block.padded [0x2F], 16⟩

theorem withHole_fits : withHole.Fits := by
  rw [Fits]
  decide

/-- The hole is found first. -/
theorem bits_exact_with_hole : withHole.Fits ∧ withHole.Exact ∧
    withHole.firstFit 2 3 = .ok [4, 6, 7] ∧
    withHole.firstFit 10 7 = .error (.refused .noSpace) :=
  ⟨withHole_fits, Fits.bits_exact withHole_fits, by decide +kernel, by decide +kernel⟩

/-- More blocks than could ever be listed are not refused for want of space. -/
theorem overflow_though_scarce : withHole.Fits ∧ 1 ≤ requestLimit ∧
    (withHole.clear 0).length < requestLimit ∧
    withHole.firstFit 0 requestLimit = .error .overflow ∧
    withHole.firstFit 0 requestLimit ≠ .error (.refused .noSpace) := by
  have hclear := withHole.length_clear_le 0
  have hoverflow : withHole.firstFit 0 requestLimit = .error .overflow := if_pos (Nat.le_refl _)
  have hblocks : withHole.blocks.toNat - 0 < requestLimit := by decide
  refine ⟨withHole_fits, by decide, Nat.lt_of_le_of_lt hclear hblocks, hoverflow, ?_⟩
  rw [hoverflow]
  exact nofun

end BlockFS.Bitmap
