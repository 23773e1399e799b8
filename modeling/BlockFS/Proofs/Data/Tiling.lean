import BlockFS.Proofs.Data.Reading
import BlockFS.Proofs.Data.Words
import Mathlib.Algebra.Ring.Nat

/-!
How a range of bytes is cut at the boundaries of blocks. Reads and writes move their place in the
caller's buffer on by the length of each part and check nothing more, so the parts have to lie one
behind the other, with none of their bytes left out or moved twice.
-/

set_option autoImplicit false
set_option relaxedAutoImplicit false

namespace BlockFS

/-- The parts of a range in the blocks from index `first` to index `last`: `span` gives for each of
them the positions within the block, and one behind the other they are the range. -/
structure Tiles (start stop first last : Nat) (span : Nat → Nat × Nat) : Prop where
  clipped : ∀ {index}, first ≤ index → index ≤ last →
    clip index start stop = .ok (span index) ∧ Word64.clip index start stop = .ok (span index)
  proper : ∀ {index}, first ≤ index → index ≤ last →
    (span index).1 < (span index).2 ∧ (span index).2 ≤ blockSize
  begins : first * blockSize + (span first).1 = start
  adjacent : ∀ {index}, first ≤ index → index < last →
    index * blockSize + (span index).2 = (index + 1) * blockSize + (span (index + 1)).1
  ends : last * blockSize + (span last).2 = stop
  whole : ∀ {index}, first < index → index < last → span index = (0, blockSize)
  once : ∀ {position}, start ≤ position → position < stop →
    ∃! index, (first ≤ index ∧ index ≤ last) ∧
      index * blockSize + (span index).1 ≤ position ∧
      position < index * blockSize + (span index).2
  inOrder : ((List.range' first (last + 1 - first)).flatMap fun index =>
    List.range' (index * blockSize + (span index).1) ((span index).2 - (span index).1)) =
      List.range' start (stop - start)
  total : ((List.range' first (last + 1 - first)).map fun index =>
    (span index).2 - (span index).1).sum = stop - start
  moved : ∀ i : Inode, ∃ segments, i.extent start stop = .ok segments ∧
    segments.map (fun segment => (segment.lo, segment.hi)) =
      (List.range' first (last + 1 - first)).map span

namespace Clip

def span (start stop index : Nat) : Nat × Nat :=
  (start - index * blockSize, min stop (index * blockSize + blockSize) - index * blockSize)

variable {start stop index : Nat}

theorem clip_eq_span (hbegin : index * blockSize ≤ stop) :
    clip index start stop = .ok (span start stop index) := by
  have hmax : max start (index * blockSize) - index * blockSize = start - index * blockSize := by
    omega
  rw [clip, if_pos hbegin, hmax, span]

theorem begin_span (start stop index : Nat) :
    index * blockSize + (span start stop index).1 = max start (index * blockSize) := by
  rw [span]
  omega

theorem end_span (start : Nat) (hbegin : index * blockSize ≤ stop) :
    index * blockSize + (span start stop index).2 = min stop (index * blockSize + blockSize) :=
  Nat.add_sub_of_le (Nat.le_min.mpr ⟨hbegin, Nat.le_add_right _ _⟩)

theorem length_span (start stop index : Nat) :
    (span start stop index).2 - (span start stop index).1 =
      min stop (index * blockSize + blockSize) - max start (index * blockSize) := by
  rw [span]
  omega

theorem holds_iff (hstart : start < stop) :
    (start / blockSize ≤ index ∧ index ≤ (stop - 1) / blockSize) ↔
      start < index * blockSize + blockSize ∧ index * blockSize < stop := by
  unfold blockSize
  omega

/-- The parts of blocks one behind the other are the bytes of the range up to where the last of the
blocks ends. -/
theorem flatMap_span (hstart : start ≤ stop) (first count : Nat) :
    ((List.range' first count).flatMap fun index =>
      List.range' (index * blockSize + (span start stop index).1)
        ((span start stop index).2 - (span start stop index).1)) =
      List.range' (max start (first * blockSize))
        (min stop ((first + count) * blockSize) - max start (first * blockSize)) := by
  simp only [begin_span, length_span]
  exact flatMap_range' hstart first count

theorem flatMap_span_eq (hstart : start < stop) :
    ((List.range' (start / blockSize) ((stop - 1) / blockSize + 1 - start / blockSize)).flatMap
      fun index => List.range' (index * blockSize + (span start stop index).1)
        ((span start stop index).2 - (span start stop index).1)) =
      List.range' start (stop - start) := by
  have hfirst : max start (start / blockSize * blockSize) = start :=
    Nat.max_eq_left (Nat.div_mul_le_self start blockSize)
  have hlast : min stop ((start / blockSize +
      ((stop - 1) / blockSize + 1 - start / blockSize)) * blockSize) = stop := by
    unfold blockSize
    omega
  rw [flatMap_span (Nat.le_of_lt hstart), hfirst, hlast]

theorem existsUnique_span {position : Nat} (hlow : start ≤ position) (hhigh : position < stop) :
    ∃! index, (start / blockSize ≤ index ∧ index ≤ (stop - 1) / blockSize) ∧
      index * blockSize + (span start stop index).1 ≤ position ∧
      position < index * blockSize + (span start stop index).2 := by
  have hstart : start < stop := Nat.lt_of_le_of_lt hlow hhigh
  have hbegin : position / blockSize * blockSize ≤ position := Nat.div_mul_le_self _ _
  have hend : position < position / blockSize * blockSize + blockSize :=
    Nat.lt_div_mul_add (by decide)
  refine ⟨position / blockSize, ⟨(holds_iff hstart).mpr ⟨by omega, by omega⟩, ?_, ?_⟩, ?_⟩
  · rw [begin_span]
    exact Nat.max_le.mpr ⟨hlow, hbegin⟩
  · rw [end_span start (by omega)]
    exact Nat.lt_min.mpr ⟨hhigh, hend⟩
  · rintro index ⟨hholds, hafter, hbefore⟩
    rw [begin_span] at hafter
    rw [end_span start (Nat.le_of_lt ((holds_iff hstart).mp hholds).2)] at hbefore
    have hnext : position < (index + 1) * blockSize := by
      rw [Nat.succ_mul]
      exact (Nat.lt_min.mp hbefore).2
    exact (Nat.div_eq_of_lt_le (Nat.max_le.mp hafter).2 hnext).symm

theorem span_proper (hend : start < index * blockSize + blockSize)
    (hbegin : index * blockSize < stop) (hstart : start < stop) :
    (span start stop index).1 < (span start stop index).2 ∧
      (span start stop index).2 ≤ blockSize := by
  rw [span]
  unfold blockSize at *
  omega

theorem span_adjacent (hend : start < index * blockSize + blockSize)
    (hbegin : (index + 1) * blockSize < stop) :
    index * blockSize + (span start stop index).2 =
      (index + 1) * blockSize + (span start stop (index + 1)).1 := by
  rw [Nat.succ_mul] at hbegin
  have hwithin : index * blockSize ≤ stop := by omega
  rw [end_span start hwithin, begin_span, Nat.succ_mul, Nat.max_eq_right (Nat.le_of_lt hend),
    Nat.min_eq_right (Nat.le_of_lt hbegin)]

end Clip

open Clip

/-- The parts into which a range is cut tile it. -/
theorem clip_tiles {start stop : Nat} (hstart : start < stop) (hstop : stop ≤ maxFileSize) :
    Tiles start stop (start / blockSize) ((stop - 1) / blockSize) (span start stop) where
  clipped hfirst hlast := by
    obtain ⟨-, hbegin⟩ := (holds_iff hstart).mp ⟨hfirst, hlast⟩
    have hclip : clip _ start stop = .ok (span start stop _) := clip_eq_span (Nat.le_of_lt hbegin)
    exact ⟨hclip, (Word64.clip_eq hbegin hstop).trans hclip⟩
  proper hfirst hlast := by
    obtain ⟨hend, hbegin⟩ := (holds_iff hstart).mp ⟨hfirst, hlast⟩
    exact span_proper hend hbegin hstart
  begins := by
    rw [begin_span]
    exact Nat.max_eq_left (Nat.div_mul_le_self start blockSize)
  adjacent hfirst hlast := by
    obtain ⟨hend, -⟩ := (holds_iff hstart).mp ⟨hfirst, Nat.le_of_lt hlast⟩
    obtain ⟨-, hbegin⟩ := (holds_iff hstart).mp ⟨Nat.le_succ_of_le hfirst, hlast⟩
    exact span_adjacent hend hbegin
  ends := by
    have hfloor := Nat.div_mul_le_self (stop - 1) blockSize
    rw [end_span start (Nat.le_trans hfloor (Nat.sub_le stop 1))]
    unfold blockSize
    omega
  whole hfirst hlast := by
    rw [span]
    unfold blockSize at *
    congr 1 <;> omega
  once := existsUnique_span
  inOrder := flatMap_span_eq hstart
  total := by
    have hlength := congrArg List.length (flatMap_span_eq hstart)
    simpa only [List.length_flatMap, List.length_range'] using hlength
  moved i := by
    have hcount : (stop - 1) / blockSize + 1 = blocksToHold stop := by
      unfold blocksToHold blockSize
      omega
    refine ⟨_, i.extent_eq hstart hstop, ?_⟩
    rw [hcount, List.map_map]
    rfl

/-- A range that begins and ends within a block, with two whole blocks between. -/
theorem clip_tiles_across_blocks : 4092 < 12300 ∧ 12300 ≤ maxFileSize ∧
    Tiles 4092 12300 0 3 (span 4092 12300) :=
  ⟨by decide, by decide, clip_tiles (by decide) (by decide)⟩

end BlockFS
