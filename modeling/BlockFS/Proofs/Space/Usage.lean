import BlockFS.Proofs.Space.Bitmap

/-!
The counters agree with a bitmap when they count its clear bits. Counting a bitmap makes them agree,
and adjusting them along with the bitmap keeps it so.
-/

set_option autoImplicit false
set_option relaxedAutoImplicit false

namespace BlockFS.Usage

/-- The counters count the usable blocks of a bitmap and its clear bits among them. -/
structure Counts (u : Usage) (b : Bitmap) : Prop where
  total : u.total.toNat = b.blocks.toNat - reservedBlocks.toNat
  free : u.free.toNat = (b.clear reservedBlocks.toNat).length

theorem Counts.unique {u u' : Usage} {b : Bitmap} (h : u.Counts b) (h' : u'.Counts b) : u' = u := by
  have htotal : u'.total = u.total := UInt32.toNat_inj.mp (h'.total.trans h.total.symm)
  have hfree : u'.free = u.free := UInt32.toNat_inj.mp (h'.free.trans h.free.symm)
  exact congrArg₂ Usage.mk htotal hfree

private theorem clear_lt_size (b : Bitmap) : (b.clear reservedBlocks.toNat).length < UInt32.size :=
  Nat.lt_of_le_of_lt (Nat.le_trans (b.length_clear_le _) (Nat.sub_le _ _)) b.blocks.toNat_lt

theorem ofBitmap_counts {b : Bitmap} (hfits : b.Fits) : ∃ u, ofBitmap b = .ok u ∧ u.Counts b := by
  have hclear := b.length_clear_le reservedBlocks.toNat
  refine ⟨⟨UInt32.ofNat (b.blocks.toNat - reservedBlocks.toNat),
    UInt32.ofNat (b.clear reservedBlocks.toNat).length⟩, ?_, ?_, ?_⟩
  · rw [ofBitmap, Bitmap.usedFrom_eq hfits]
    simp only [bind, Except.bind, pure, Except.pure]
    congr 3
    omega
  · exact UInt32.toNat_ofNat_of_lt' (Nat.lt_of_le_of_lt (Nat.sub_le _ _) b.blocks.toNat_lt)
  · exact UInt32.toNat_ofNat_of_lt' (clear_lt_size b)

theorem Counts.of_charge {u : Usage} {b b' : Bitmap} (h : u.Counts b) {count : Nat}
    (hblocks : b'.blocks = b.blocks)
    (hclear : (b.clear reservedBlocks.toNat).length =
      (b'.clear reservedBlocks.toNat).length + count) :
    ∃ u', u.charge count = .ok u' ∧ u'.Counts b' := by
  have hfree := h.free
  refine ⟨{ u with free := UInt32.ofNat (u.free.toNat - count) }, ?_, ?_, ?_⟩
  · rw [charge, if_neg (by omega)]
  · rw [hblocks]
    exact h.total
  · have hsize := clear_lt_size b'
    rw [UInt32.toNat_ofNat_of_lt' (by omega)]
    omega

theorem Counts.of_credit {u : Usage} {b b' : Bitmap} (h : u.Counts b) {count : Nat}
    (hblocks : b'.blocks = b.blocks)
    (hclear : (b'.clear reservedBlocks.toNat).length =
      (b.clear reservedBlocks.toNat).length + count) :
    ∃ u', u.credit count = .ok u' ∧ u'.Counts b' := by
  have hfree := h.free
  have hsize := clear_lt_size b'
  refine ⟨{ u with free := UInt32.ofNat (u.free.toNat + count) }, ?_, ?_, ?_⟩
  · rw [credit, if_neg (by omega)]
  · rw [hblocks]
    exact h.total
  · rw [UInt32.toNat_ofNat_of_lt' (by omega)]
    omega

end BlockFS.Usage
