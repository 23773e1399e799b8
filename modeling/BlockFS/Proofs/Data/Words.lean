import BlockFS.Proofs.Data.Patch

/-!
Reading, writing and shrinking in words of 64 bits. The definitions here go step by step through the
arithmetic of the data paths: every sum, difference and product is checked to be a word, and every
window of the caller's buffer to lie in the buffer. Each of them is equal to the definition on
natural numbers that it is named after, whatever the inode says, so no check of it can fail.
-/

set_option autoImplicit false
set_option relaxedAutoImplicit false

namespace BlockFS.Word64

abbrev limit : Nat := 18446744073709551616

/-- One more than the longest buffer: a length is a signed word. -/
abbrev bufferLimit : Nat := 9223372036854775808

def add (a b : Nat) : Except Failure Nat := if a + b < limit then .ok (a + b) else .error .overflow

def sub (a b : Nat) : Except Failure Nat := if b ≤ a then .ok (a - b) else .error .overflow

def mul (a b : Nat) : Except Failure Nat := if a * b < limit then .ok (a * b) else .error .overflow

def clip (index start stop : Nat) : Except Failure (Nat × Nat) := do
  let first ← mul index blockSize
  let lo ← sub (max start first) first
  let next ← add first blockSize
  let hi ← sub (min stop next) first
  return (lo, hi)

/-- The segments of the blocks at the given indices, and with each of them the window of the
caller's buffer that it is copied from or to: as many bytes, from `position` on, within the `room`
of the buffer. -/
def segments (i : Inode) (start stop room : Nat) :
    (position : Nat) → List Nat → Except Failure (List Segment)
  | _, [] => return []
  | position, index :: rest => do
    let (lo, hi) ← clip index start stop
    let block ← Window.get i.pointers index
    let sum ← add position hi
    let after ← sub sum lo
    let count ← sub hi lo
    if position ≤ after ∧ after ≤ room ∧ after - position = count then
      let next ← add position count
      let others ← segments i start stop room next rest
      return ⟨block, lo, hi⟩ :: others
    else .error .outOfBounds

def extent (i : Inode) (start stop room : Nat) : Except Failure (List Segment) := do
  let last := (← sub stop 1) / blockSize
  let first := start / blockSize
  segments i start stop room 0 (List.range' first (last + 1 - first))

def readable (i : Inode) (offset count : Nat) : Except Failure (List Segment) :=
  if i.isRegular then do
    let length ← i.boundedLength
    if length ≤ offset ∨ count = 0 then return []
    else
      let rest ← sub length offset
      let stop ← add offset (min count rest)
      extent i offset stop count
  else .error (.refused .isADirectory)

def blocksToHold (length : Nat) : Except Failure Nat :=
  if length % blockSize = 0 then .ok (length / blockSize) else add (length / blockSize) 1

/-- The inode with enough pointers for a block at index `last`, and the effects that allocate their
blocks. The new blocks have to fill the window of pointers behind the ones in use. -/
def grow (v : Volume) (inode : Inode) (last : Nat) : Except Failure (Inode × List Effect) := do
  let held ← blocksToHold inode.length
  if last < min held pointerCount then return (inode, [])
  else
    let sum ← add last 1
    let wanted ← sub sum (min held pointerCount)
    let blocks ← v.bitmap.firstFit reservedBlocks wanted
    if blocks.length = wanted then
      let pointers ← Window.write inode.pointers (min held pointerCount) blocks
      return ({ inode with pointers := pointers }, Effect.allocate blocks)
    else .error .outOfBounds

def overwrite (v : Volume) (now : UInt32) (id : UInt32) (inode : Inode) (offset stop : Nat)
    (bytes : List UInt8) : Except Failure (Update Nat) := do
  let last := (← sub stop 1) / blockSize
  let (grown, allocate) ← grow v inode last
  let size := if inode.length < stop then Int32.ofNat stop else inode.size
  let written := { grown with size := size, mtime := now }
  let store ← Effect.storeInode v.superblock id written
  let segments ← extent written offset stop bytes.length
  let data ← spread segments bytes
  return ⟨bytes.length, allocate ++ store :: data⟩

def writeFile (v : Volume) (now : UInt32) (id : UInt32) (inode : Inode) (offset : Nat)
    (bytes : List UInt8) : Except Failure (Update Nat) :=
  if inode.isRegular then do
    let length ← inode.boundedLength
    if length < offset then .error (.refused .invalidArgument)
    else if bytes.isEmpty then return ⟨0, []⟩
    else
      let stop ← add offset bytes.length
      if maxFileSize < stop then .error (.refused .fileTooLarge)
      else overwrite v now id inode offset stop bytes
  else .error (.refused .isADirectory)

def shrinkFile (v : Volume) (id : UInt32) (inode : Inode) (length : Nat) :
    Except Failure (Update Unit) :=
  if inode.isRegular then do
    let old ← inode.boundedLength
    if old < length then .error (.refused .invalidArgument)
    else
      let kept ← blocksToHold length
      let held ← blocksToHold inode.length
      let freed ← Window.read inode.pointers kept (min held pointerCount)
      let pointers ← Window.write inode.pointers kept (List.replicate freed.length 0)
      let store ← Effect.storeInode v.superblock id
        { inode with pointers := pointers, size := Int32.ofNat length }
      return ⟨(), store :: Effect.deallocate freed⟩
  else .error (.refused .isADirectory)

/-! ### No check fails -/

theorem add_eq {a b : Nat} (h : a + b < limit) : add a b = .ok (a + b) := if_pos h

theorem sub_eq {a b : Nat} (h : b ≤ a) : sub a b = .ok (a - b) := if_pos h

theorem mul_eq {a b : Nat} (h : a * b < limit) : mul a b = .ok (a * b) := if_pos h

theorem blocksToHold_eq {length : Nat} (h : length < limit) :
    blocksToHold length = .ok (BlockFS.blocksToHold length) := by
  have hword : length / blockSize + 1 < limit := by
    unfold limit at h ⊢
    unfold blockSize
    omega
  rw [blocksToHold, BlockFS.blocksToHold]
  split
  · congr 1
    unfold blockSize at *
    omega
  · rw [add_eq (a := length / blockSize) (b := 1) hword]
    congr 1
    unfold blockSize at *
    omega

theorem clip_eq {index start stop : Nat} (hindex : index * blockSize < stop)
    (hstop : stop ≤ maxFileSize) : clip index start stop = BlockFS.clip index start stop := by
  have hlimit : maxFileSize + blockSize < limit := by decide
  have hfirst : index * blockSize ≤ maxFileSize := Nat.le_trans (Nat.le_of_lt hindex) hstop
  have hnext : index * blockSize + blockSize < limit :=
    Nat.lt_of_le_of_lt (Nat.add_le_add_right hfirst blockSize) hlimit
  have hmin : index * blockSize ≤ min stop (index * blockSize + blockSize) := by omega
  rw [clip, mul_eq (Nat.lt_of_le_of_lt (Nat.le_add_right _ _) hnext), BlockFS.clip,
    if_pos (Nat.le_of_lt hindex)]
  simp only [bind, Except.bind, sub_eq (Nat.le_max_right start (index * blockSize)), add_eq hnext,
    sub_eq hmin]
  rfl

/-- The windows of a buffer with room for the whole range lie one behind the other: the bytes of the
block at an index are copied from or to the position of its first byte within the range. -/
theorem segments_eq (i : Inode) {start stop room : Nat} (hstart : start ≤ stop)
    (hstop : stop ≤ maxFileSize) (hroom : stop - start ≤ room) (count index : Nat)
    (hindex : start / blockSize ≤ index) (hlast : ∀ k < index + count, k * blockSize < stop) :
    segments i start stop room (max start (index * blockSize) - start) (List.range' index count) =
      i.segments start stop (List.range' index count) := by
  have hlimit : maxFileSize + blockSize < limit := by decide
  induction count generalizing index with
  | zero => rfl
  | succ count ih =>
    have hbegin : index * blockSize < stop := hlast index (by omega)
    have hfirst : start < index * blockSize + blockSize := by
      unfold blockSize at hindex ⊢
      omega
    have hpointer : index < pointerCount := by
      unfold maxFileSize at hstop
      unfold blockSize at hbegin
      unfold pointerCount
      omega
    have hget : Window.get i.pointers index = .ok (i.pointer index) := by
      rw [Inode.pointer_eq i hpointer]
      exact dif_pos hpointer
    have hclip : BlockFS.clip index start stop = .ok (max start (index * blockSize) -
        index * blockSize, min stop (index * blockSize + blockSize) - index * blockSize) :=
      if_pos (Nat.le_of_lt hbegin)
    -- Behind the last block the position plays no part.
    have hrest : segments i start stop room
        (max start (index * blockSize) - start + (min stop (index * blockSize + blockSize) -
          index * blockSize - (max start (index * blockSize) - index * blockSize)))
        (List.range' (index + 1) count) =
          i.segments start stop (List.range' (index + 1) count) := by
      cases count with
      | zero => rfl
      | succ count =>
        have hnext : (index + 1) * blockSize < stop := hlast (index + 1) (by omega)
        rw [← ih (index + 1) (by omega) fun k hk => hlast k (by omega)]
        congr 1
        rw [Nat.succ_mul] at hnext ⊢
        omega
    rw [List.range'_succ, segments, Inode.segments, clip_eq hbegin hstop, hclip, hget]
    simp only [bind, Except.bind]
    rw [add_eq (by omega)]
    simp only
    rw [sub_eq (by omega)]
    simp only
    rw [sub_eq (by omega)]
    simp only
    rw [if_pos (by omega), add_eq (by omega)]
    simp only
    rw [hrest]

theorem extent_eq (i : Inode) {start stop room : Nat} (hstart : start < stop)
    (hstop : stop ≤ maxFileSize) (hroom : stop - start ≤ room) :
    extent i start stop room = i.extent start stop := by
  have hzero : max start (start / blockSize * blockSize) - start = 0 := by
    have := Nat.div_mul_le_self start blockSize
    omega
  have hsegments := segments_eq i (Nat.le_of_lt hstart) hstop hroom
    ((stop - 1) / blockSize + 1 - start / blockSize) (start / blockSize) (Nat.le_refl _)
    fun k hk => by
      unfold blockSize at hk ⊢
      omega
  rw [hzero] at hsegments
  rw [extent, sub_eq (by omega)]
  exact hsegments

theorem readable_eq (i : Inode) (offset count : Nat) :
    readable i offset count = i.readable offset count := by
  rw [readable, Inode.readable]
  split
  · cases hlength : i.boundedLength with
    | error reason => rfl
    | ok length =>
      obtain ⟨rfl, hlimit⟩ := Inode.of_boundedLength hlength
      simp only [liftM, monadLift, MonadLift.monadLift, Failure.ofRefusal, bind, Except.bind]
      split
      · rfl
      · rw [sub_eq (by omega)]
        simp only
        have hword : maxFileSize < limit := by decide
        rw [add_eq (by omega)]
        exact extent_eq i (by omega) (by omega) (by omega)
  · rfl

theorem held_eq (i : Inode) : blocksToHold i.length = .ok (BlockFS.blocksToHold i.length) := by
  refine blocksToHold_eq ?_
  have hsize := i.size.toInt_lt
  rw [Inode.length]
  unfold limit
  omega

theorem grow_eq {v : Volume} (hfits : v.bitmap.Fits) (inode : Inode) {last : Nat}
    (hlast : last < pointerCount) : grow v inode last = v.grow inode last := by
  rw [grow, Volume.grow, held_eq]
  simp only [bind, Except.bind]
  rw [← Inode.blockCount]
  split
  · rfl
  · have hword : last + 1 < limit := Nat.lt_of_le_of_lt hlast (by decide)
    have hle : inode.blockCount ≤ last + 1 := by omega
    simp only [add_eq hword, sub_eq hle]
    cases hblocks : v.bitmap.firstFit reservedBlocks (last + 1 - inode.blockCount) with
    | error failure => rfl
    | ok blocks =>
      simp only [if_pos (Bitmap.offers_of_firstFit hfits hblocks).length]

theorem overwrite_eq {v : Volume} (hfits : v.bitmap.Fits) (now id : UInt32) (inode : Inode)
    {offset : Nat} {bytes : List UInt8} (hbytes : 0 < bytes.length)
    (hstop : offset + bytes.length ≤ maxFileSize) :
    overwrite v now id inode offset (offset + bytes.length) bytes =
      v.overwrite now id inode offset bytes := by
  have hlast : (offset + bytes.length - 1) / blockSize < pointerCount := by
    unfold maxFileSize at hstop
    unfold blockSize pointerCount
    omega
  rw [overwrite, Volume.overwrite, sub_eq (by omega)]
  simp only [bind, Except.bind, grow_eq hfits inode hlast]
  cases v.grow inode ((offset + bytes.length - 1) / blockSize) with
  | error failure => rfl
  | ok grown =>
    simp only
    rw [extent_eq _ (by omega) hstop (by omega)]

/-- Writing: no check fails, for any inode, offset and bytes that are held in a buffer. -/
theorem writeFile_eq {v : Volume} (hfits : v.bitmap.Fits) (now id : UInt32) (inode : Inode)
    (offset : Nat) {bytes : List UInt8} (hbytes : bytes.length < bufferLimit) :
    writeFile v now id inode offset bytes = v.writeFile now id inode offset bytes := by
  rw [writeFile, Volume.writeFile]
  split
  · cases hlength : inode.boundedLength with
    | error reason => rfl
    | ok length =>
      obtain ⟨rfl, hlimit⟩ := Inode.of_boundedLength hlength
      simp only [liftM, monadLift, MonadLift.monadLift, Failure.ofRefusal, bind, Except.bind]
      split
      · rfl
      rename_i hoffset
      by_cases hempty : bytes.isEmpty = true
      · rw [if_pos hempty, if_pos hempty]
      · rw [if_neg hempty, if_neg hempty]
        have hword : offset + bytes.length < limit :=
          Nat.lt_of_le_of_lt (Nat.add_le_add (Nat.le_trans (Nat.le_of_not_lt hoffset) hlimit)
            (Nat.le_of_lt hbytes)) (by decide)
        have hsome : 0 < bytes.length := by
          rw [List.length_pos_iff, ne_eq, ← List.isEmpty_iff]
          exact hempty
        simp only [add_eq hword]
        split
        · rfl
        · exact overwrite_eq hfits now id inode hsome (Nat.le_of_not_lt ‹_›)
  · rfl

theorem shrinkFile_eq (v : Volume) (id : UInt32) (inode : Inode) (length : Nat) :
    shrinkFile v id inode length = v.shrinkFile id inode length := by
  rw [shrinkFile, Volume.shrinkFile]
  split
  · cases hold : inode.boundedLength with
    | error reason => rfl
    | ok old =>
      obtain ⟨rfl, hlimit⟩ := Inode.of_boundedLength hold
      simp only [liftM, monadLift, MonadLift.monadLift, Failure.ofRefusal, bind, Except.bind]
      split
      · rfl
      · have hword : length < limit :=
          Nat.lt_of_le_of_lt (Nat.le_trans (Nat.le_of_not_lt ‹_›) hlimit) (by decide)
        simp only [blocksToHold_eq hword, held_eq]
        rfl
  · rfl

end BlockFS.Word64
