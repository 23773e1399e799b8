import BlockFS.Proofs.Operation.Commit
import BlockFS.Proofs.Data.Contents

/-!
Reading a file. The segments of a range hold its bytes one behind the other, so what is transferred
into a buffer is a slice of the bytes of the file; what is behind it in the buffer stays.
-/

set_option autoImplicit false
set_option relaxedAutoImplicit false

namespace BlockFS

def Segment.bytes (segment : Segment) (d : Disk) : List UInt8 :=
  ((d.block segment.block).toList.take segment.hi).drop segment.lo

/-- How many of some blocks can be read, one after another, before the first that cannot. -/
def Device.granted (d : Device) : List UInt32 → Nat
  | [] => 0
  | id :: rest =>
    if d.RefusesRead id then 0 else granted { d with accesses := d.accesses + 1 } rest + 1

theorem Device.granted_of_faultless {d : Device} (hfaults : d.faults = Faults.none)
    {ids : List UInt32} (hids : ∀ id ∈ ids, id.toNat < d.disk.size) :
    d.granted ids = ids.length := by
  induction ids generalizing d with
  | nil => rfl
  | cons id rest ih =>
    have hgranted : ¬ d.RefusesRead id :=
      not_refusesRead (by simp [hfaults, Faults.none]) (hids id List.mem_cons_self)
    rw [granted, if_neg hgranted, List.length_cons, ih (d := { d with accesses := d.accesses + 1 })
      hfaults fun other hother => hids other (List.mem_cons_of_mem id hother)]

private theorem fill_cons {segment : Segment} {rest : List Segment} {buffer : List UInt8}
    {d device : Device} {others : Filled} (hgranted : ¬ d.RefusesRead segment.block)
    (hlo : segment.lo ≤ segment.hi) (hhi : segment.hi ≤ blockSize)
    (hroom : (segment.bytes d.disk).length ≤ buffer.length)
    (hrest : fill rest (buffer.drop (segment.bytes d.disk).length)
      { d with accesses := d.accesses + 1 } = (others, device)) :
    fill (segment :: rest) buffer d =
      (⟨others.outcome.map ((segment.bytes d.disk).length + ·),
        segment.bytes d.disk ++ others.buffer⟩, device) := by
  have hread : Window.read (d.disk.block segment.block) segment.lo segment.hi =
      .ok (segment.bytes d.disk) := Window.read_eq_ok hlo hhi
  have hfront : front buffer (segment.bytes d.disk).length =
      .ok (buffer.take (segment.bytes d.disk).length) := by
    rw [front, if_pos]
    rw [List.length_take, Nat.min_eq_left hroom]
  simp only [fill, Device.read_of_granted hgranted, hread, hfront, bind, Except.bind, pure,
    Except.pure, hrest]

/-- Segments are read one behind the other into a buffer that has room for them, up to the first
that the device refuses to read; the buffer stays as it was from there on. -/
theorem fill_eq {segments : List Segment} {buffer : List UInt8} {d : Device}
    (hsegments : ∀ segment ∈ segments, segment.lo ≤ segment.hi ∧ segment.hi ≤ blockSize)
    (hroom : (segments.flatMap (·.bytes d.disk)).length ≤ buffer.length) {count : Nat}
    {bytes : List UInt8} (hcount : d.granted (segments.map (·.block)) = count)
    (hbytes : (segments.take count).flatMap (·.bytes d.disk) = bytes) :
    fill segments buffer d =
      if count < segments.length then
        (⟨.error (.refused .io), bytes ++ buffer.drop bytes.length⟩,
          { d with accesses := d.accesses + (count + 1) })
      else
        (⟨.ok bytes.length, bytes ++ buffer.drop bytes.length⟩,
          { d with accesses := d.accesses + count }) := by
  subst hbytes
  induction segments generalizing buffer d count with
  | nil =>
    obtain rfl : 0 = count := hcount
    rfl
  | cons segment rest ih =>
    obtain ⟨hlo, hhi⟩ := hsegments segment List.mem_cons_self
    rw [List.flatMap_cons, List.length_append] at hroom
    rw [List.map_cons, Device.granted] at hcount
    by_cases hrefused : d.RefusesRead segment.block
    · rw [if_pos hrefused] at hcount
      subst hcount
      simp only [fill, Device.read_of_refused hrefused, List.length_cons, Nat.zero_lt_succ, if_true]
      rfl
    · rw [if_neg hrefused] at hcount
      obtain ⟨others, hothers⟩ : ∃ others, Device.granted { d with accesses := d.accesses + 1 }
        (rest.map (·.block)) = others := ⟨_, rfl⟩
      obtain rfl : others + 1 = count := hothers ▸ hcount
      have hleft : (rest.flatMap (·.bytes d.disk)).length ≤
          (buffer.drop (segment.bytes d.disk).length).length := by
        rw [List.length_drop]
        exact Nat.le_sub_of_add_le' hroom
      have hrest := ih (d := { d with accesses := d.accesses + 1 })
        (fun other hother => hsegments other (List.mem_cons_of_mem segment hother)) hleft hothers
      rw [List.take_succ_cons, List.flatMap_cons, List.length_append, List.append_assoc,
        ← List.drop_drop]
      have hboth : others + 1 < (segment :: rest).length ↔ others < rest.length := by
        rw [List.length_cons, Nat.add_lt_add_iff_right]
      by_cases hshort : others < rest.length
      · rw [if_pos hshort] at hrest
        rw [if_pos (hboth.mpr hshort), fill_cons hrefused hlo hhi (by omega) hrest]
        simp only [Except.map, Nat.add_assoc, Nat.add_comm 1]
      · rw [if_neg hshort] at hrest
        rw [if_neg (mt hboth.mp hshort), fill_cons hrefused hlo hhi (by omega) hrest]
        simp only [Except.map, Nat.add_assoc, Nat.add_comm 1]

theorem fill_of_faultless {segments : List Segment} (buffer : List UInt8) {d : Device}
    (hfaults : d.faults = Faults.none)
    (hsegments : ∀ segment ∈ segments, segment.block.toNat < d.disk.size ∧
      segment.lo ≤ segment.hi ∧ segment.hi ≤ blockSize)
    (hroom : (segments.flatMap (·.bytes d.disk)).length ≤ buffer.length) :
    ∃ accesses, fill segments buffer d =
      (⟨.ok (segments.flatMap (·.bytes d.disk)).length, segments.flatMap (·.bytes d.disk) ++
        buffer.drop (segments.flatMap (·.bytes d.disk)).length⟩,
        { d with accesses := accesses }) := by
  have hcount : d.granted (segments.map (·.block)) = segments.length := by
    rw [Device.granted_of_faultless hfaults, List.length_map]
    rintro id hid
    obtain ⟨segment, hsegment, rfl⟩ := List.mem_map.mp hid
    exact (hsegments segment hsegment).1
  refine ⟨d.accesses + segments.length, ?_⟩
  rw [fill_eq (fun segment hsegment => (hsegments segment hsegment).2) hroom hcount rfl,
    if_neg (Nat.lt_irrefl _), List.take_length]

theorem fill_error {segments : List Segment} {buffer : List UInt8} {d : Device}
    (hsegments : ∀ segment ∈ segments, segment.lo ≤ segment.hi ∧ segment.hi ≤ blockSize)
    (hroom : (segments.flatMap (·.bytes d.disk)).length ≤ buffer.length) {failure : Failure}
    (h : (fill segments buffer d).1.outcome = .error failure) : failure = .refused .io := by
  rw [fill_eq hsegments hroom rfl rfl] at h
  split at h
  · exact (Except.error.inj h).symm
  · cases h

private theorem range'_append_clip {start stop first size last : Nat} (hle : start ≤ stop)
    (hlast : first + size ≤ last) :
    List.range' (max start first) (min stop (first + size) - max start first) ++
        List.range' (max start (first + size)) (min stop last - max start (first + size)) =
      List.range' (max start first) (min stop last - max start first) := by
  rcases Nat.le_total (first + size) start with hstart | hstart
  · have hempty : min stop (first + size) - max start first = 0 := by omega
    rw [hempty, Nat.max_eq_left hstart, Nat.max_eq_left (by omega)]
    rfl
  · rcases Nat.le_total stop (first + size) with hstop | hstop
    · have hempty : min stop last - max start (first + size) = 0 := by omega
      rw [hempty, Nat.min_eq_left hstop, Nat.min_eq_left (by omega)]
      exact List.append_nil _
    · have hsecond : max start (first + size) =
          max start first + (min stop (first + size) - max start first) := by omega
      rw [hsecond, List.range'_append_1]
      congr 1
      omega

theorem flatMap_range' {start stop : Nat} (hle : start ≤ stop) (index count : Nat) :
    ((List.range' index count).flatMap fun k => List.range' (max start (k * blockSize))
        (min stop (k * blockSize + blockSize) - max start (k * blockSize))) =
      List.range' (max start (index * blockSize))
        (min stop ((index + count) * blockSize) - max start (index * blockSize)) := by
  induction count generalizing index with
  | zero =>
    have hzero : min stop ((index + 0) * blockSize) - max start (index * blockSize) = 0 := by
      rw [Nat.add_zero]
      omega
    rw [hzero]
    rfl
  | succ count ih =>
    have hnext : index + 1 + count = index + (count + 1) := by omega
    have hlast : index * blockSize + blockSize ≤ (index + (count + 1)) * blockSize := by
      rw [← Nat.succ_mul]
      exact Nat.mul_le_mul_right _ (by omega)
    rw [List.range'_succ, List.flatMap_cons, ih, Nat.succ_mul, hnext]
    exact range'_append_clip hle hlast

namespace Inode

variable {i : Inode} {start stop : Nat}

theorem segment_bytes (i : Inode) (d : Disk) (start stop index : Nat) :
    (i.segment start stop index).bytes d =
      (List.range' (max start (index * blockSize))
        (min stop (index * blockSize + blockSize) - max start (index * blockSize))).map
          (d.byteAt i) := by
  apply List.ext_getElem?
  intro k
  rw [Segment.bytes, segment, List.getElem?_drop, List.getElem?_map]
  dsimp only
  by_cases hk : k < min stop (index * blockSize + blockSize) - max start (index * blockSize)
  · have hposition : start - index * blockSize + k < blockSize := by omega
    have hsum : max start (index * blockSize) + k =
        start - index * blockSize + k + index * blockSize := by omega
    have hdiv : (max start (index * blockSize) + k) / blockSize = index := by
      rw [hsum, Nat.add_mul_div_right _ _ (by decide), Nat.div_eq_of_lt hposition, Nat.zero_add]
    have hmod : (max start (index * blockSize) + k) % blockSize =
        start - index * blockSize + k := by
      rw [hsum, Nat.add_mul_mod_self_right, Nat.mod_eq_of_lt hposition]
    rw [List.getElem?_take_of_lt (by omega), List.getElem?_range' (by omega), Nat.one_mul,
      List.getElem?_eq_getElem (by rw [Vector.length_toList]; exact hposition),
      Vector.getElem_toList, Option.map_some, Disk.byteAt]
    simp only [hdiv, hmod]
    rfl
  · rw [List.getElem?_eq_none (by rw [List.length_take, Vector.length_toList]; omega),
      List.getElem?_eq_none (by rw [List.length_range']; omega)]
    rfl

theorem flatMap_first_segments (i : Inode) (d : Disk) (hle : start ≤ stop) (count : Nat) :
    ((List.range' (start / blockSize) count).map (i.segment start stop)).flatMap (·.bytes d) =
      (List.range' start (min stop ((start / blockSize + count) * blockSize) - start)).map
        (d.byteAt i) := by
  have hpieces := flatMap_range' hle (start / blockSize) count
  have hfirst : max start (start / blockSize * blockSize) = start :=
    Nat.max_eq_left (Nat.div_mul_le_self start blockSize)
  rw [hfirst] at hpieces
  rw [List.flatMap_map, List.flatMap_congr fun index _ => i.segment_bytes d start stop index,
    ← List.map_flatMap, hpieces]

theorem flatMap_segments (d : Disk) (hstart : start < stop) (hstop : stop ≤ i.length) :
    ((blockRange start stop).map (i.segment start stop)).flatMap (·.bytes d) =
      ((d.contents i).drop start).take (stop - start) := by
  have hlast :
      min stop ((start / blockSize + (blocksToHold stop - start / blockSize)) * blockSize) =
        stop := by
    unfold blocksToHold blockSize
    omega
  rw [blockRange, flatMap_first_segments i d (Nat.le_of_lt hstart), hlast, Disk.contents,
    ← List.map_drop, ← List.map_take, List.range_eq_range', List.drop_range',
    List.take_range'_of_length_ge (by omega), Nat.mul_one, Nat.zero_add]

theorem segment_within (hle : start ≤ stop) {segment : Segment}
    (hsegment : segment ∈ (blockRange start stop).map (i.segment start stop)) :
    segment.lo ≤ segment.hi ∧ segment.hi ≤ blockSize := by
  obtain ⟨index, hindex, rfl⟩ := List.mem_map.mp hsegment
  obtain ⟨hlow, hhigh⟩ := mem_blockRange.mp hindex
  refine ⟨?_, ?_⟩
  · simp only [Inode.segment]
    unfold blockSize at hlow ⊢
    omega
  · simp only [Inode.segment]
    omega

theorem WellFormed.segment_inside (hi : i.WellFormed) (hle : start ≤ stop) (hstop : stop ≤ i.length)
    {size : Nat} (hblocks : ∀ index < i.blockCount, (i.pointer index).toNat < size)
    {segment : Segment} (hsegment : segment ∈ (blockRange start stop).map (i.segment start stop)) :
    segment.block.toNat < size ∧ segment.lo ≤ segment.hi ∧ segment.hi ≤ blockSize := by
  refine ⟨?_, segment_within hle hsegment⟩
  obtain ⟨index, hindex, rfl⟩ := List.mem_map.mp hsegment
  obtain ⟨-, hhigh⟩ := mem_blockRange.mp hindex
  refine hblocks index ?_
  rw [hi.blockCount, lt_blocksToHold_iff]
  omega

theorem readInto_of_faultless (hi : i.WellFormed) (hregular : i.isRegular = true) {d : Device}
    (hfaults : d.faults = Faults.none)
    (hblocks : ∀ index < i.blockCount, (i.pointer index).toNat < d.disk.size) (offset : Nat)
    (buffer : List UInt8) :
    ∃ accesses, i.readInto offset buffer d =
      (⟨.ok (min buffer.length (i.length - offset)),
        ((d.disk.contents i).drop offset).take (min buffer.length (i.length - offset)) ++
          buffer.drop (min buffer.length (i.length - offset))⟩,
        { d with accesses := accesses }) := by
  by_cases hnone : i.length ≤ offset ∨ buffer.length = 0
  · have hzero : min buffer.length (i.length - offset) = 0 := by omega
    have hreadable : i.readable offset buffer.length = .ok [] := by
      rw [readable, if_pos hregular, hi.boundedLength]
      exact if_pos hnone
    refine ⟨d.accesses, ?_⟩
    rw [hzero, readInto]
    simp only [hreadable]
    rfl
  · obtain ⟨hinside, hsome⟩ := not_or.mp hnone
    have hstart : offset < offset + min buffer.length (i.length - offset) := by omega
    have hstop : offset + min buffer.length (i.length - offset) ≤ i.length := by omega
    have hreadable : i.readable offset buffer.length =
        .ok ((blockRange offset (offset + min buffer.length (i.length - offset))).map
          (i.segment offset (offset + min buffer.length (i.length - offset)))) := by
      rw [← extent_eq i hstart (Nat.le_trans hstop hi.length_le), readable, if_pos hregular,
        hi.boundedLength]
      exact if_neg hnone
    have hbytes := flatMap_segments (i := i) d.disk hstart hstop
    rw [Nat.add_sub_cancel_left] at hbytes
    have hcount : (((d.disk.contents i).drop offset).take
        (min buffer.length (i.length - offset))).length =
          min buffer.length (i.length - offset) := by
      rw [List.length_take, List.length_drop, Disk.length_contents]
      omega
    obtain ⟨accesses, hfill⟩ := fill_of_faultless buffer hfaults
      (fun segment hsegment => hi.segment_inside (Nat.le_of_lt hstart) hstop hblocks hsegment)
      (by rw [hbytes, hcount]; exact Nat.min_le_left _ _)
    rw [hbytes, hcount] at hfill
    refine ⟨accesses, ?_⟩
    rw [readInto]
    simp only [hreadable]
    exact hfill

end Inode

end BlockFS
