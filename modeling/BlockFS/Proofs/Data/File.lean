import BlockFS.Proofs.Data.Ownership
import BlockFS.Proofs.Invariant.Moves

/-!
Regular files as callers see them: a list of bytes and some attributes. An operation on a file
writes its inode and, apart from that, only blocks of data, spare ones and the bitmap. So paths lead
where they did, all other files stay as they are, and what remains to be said is what becomes of the
one file.
-/

set_option autoImplicit false
set_option relaxedAutoImplicit false

namespace BlockFS

structure File where
  bytes : List UInt8
  mode : UInt32
  uid : UInt16
  gid : UInt16
  ctime : UInt32
  mtime : UInt32

namespace Disk

/-- The regular file that an inode stands for. -/
def fileOf (d : Disk) (i : Inode) : File :=
  ⟨d.contents i, i.mode, i.uid, i.gid, i.ctime, i.mtime⟩

def file (d : Disk) (id : UInt32) : File := d.fileOf (d.inode id)

/-- The second disk differs from the first in one regular file: directories have the same entries,
and all other files are as they were. -/
structure Changes (d d' : Disk) (id : UInt32) (file : File) : Prop where
  entries : SameEntries d d'
  file : d'.file id = file
  others : ∀ other, d.Reachable other → (d.inode other).isRegular = true → other ≠ id →
    d'.file other = d.file other

end Disk

namespace Content

variable {c : Content} {diskSize id : UInt32}

/-- An effect that writes the bitmap, a block that a file points at, or a spare one. -/
def OnData (c : Content) (diskSize id : UInt32) (effect : Effect) : Prop :=
  ∀ block, effect.target = some block → block = bitmapId ∨
    (∃ k, c.disk.Refers (.pointer id k) block) ∨ c.disk.Spare diskSize block

theorem onData_of_bookkeeping {effect : Effect} (h : effect.Bookkeeping) :
    c.OnData diskSize id effect :=
  fun block htarget => .inl (h block htarget)

namespace Mounted

variable (h : c.Mounted diskSize)

include h

theorem byteAt_after (hid : c.disk.Reachable id) (effects : List Effect)
    (htarget : ∀ effect ∈ effects, ∀ block, effect.target = some block →
      block = id ∨ block = bitmapId) {position : Nat}
    (hposition : position < (c.disk.inode id).length) :
    (c.after effects).disk.byteAt (c.disk.inode id) position =
      c.disk.byteAt (c.disk.inode id) position := by
  have hindex := Inode.div_lt_blockCount (h.consistent.formed hid) hposition
  obtain ⟨hk, hrefers⟩ := h.consistent.refers_pointer_index hid hindex
  rw [Disk.byteAt, Disk.byteAt, block_after]
  intro effect heffect heq
  rcases htarget effect heffect _ heq with hblock | hblock
  · exact h.consistent.ne_pointer hid hrefers hblock.symm
  · exact (h.consistent.ne_reserved h.low hrefers).2 hblock

variable (hid : c.disk.Reachable id) (hregular : (c.disk.inode id).isRegular = true)

include hid hregular

omit hid in
theorem not_structural_of_onData {effect : Effect} (honData : c.OnData diskSize id effect)
    {block : UInt32} (htarget : effect.target = some block) : ¬ c.disk.Structural block := by
  rcases honData block htarget with rfl | ⟨k, hrefers⟩ | hspare
  · exact h.not_structural (.inr rfl)
  · exact h.consistent.not_structural_data hrefers
      (Inode.isDirectory_eq_false_of_isRegular hregular)
  · exact hspare.not_structural

omit h hregular in
theorem within_of_onData {effect : Effect}
    (heffect : effect.target = some id ∨ c.OnData diskSize id effect) :
    c.Within diskSize id effect := by
  intro block htarget
  rcases heffect with hself | honData
  · obtain rfl := Option.some.inj (htarget.symm.trans hself)
    exact .inr (.inr hid.owned)
  · rcases honData block htarget with heq | ⟨k, hrefers⟩ | hspare
    · exact .inl heq
    · exact .inr (.inr ⟨.pointer id k, rfl, hrefers⟩)
    · exact .inr (.inl hspare)

omit hregular in
theorem file_after_other {other : UInt32} (hother : c.disk.Reachable other) (hne : other ≠ id)
    {effects : List Effect} (heffects : ∀ effect ∈ effects,
      effect.target = some id ∨ c.OnData diskSize id effect) :
    (c.after effects).disk.file other = c.disk.file other := by
  have htouches := h.touchesOnly fun effect heffect =>
    within_of_onData hid (heffects effect heffect)
  rw [Disk.file, Disk.file, htouches.inode_eq hother hne, Disk.fileOf, Disk.fileOf,
    htouches.contents_eq hother hne h.consistent]

theorem rewrites {j : Inode} (hj : j.isRegular = true) (first last : List Effect)
    (honData : ∀ effect ∈ first ++ last, c.OnData diskSize id effect) :
    Disk.Rewrites c.disk (c.after (first ++ .store id j.encode :: last)).disk id j := by
  refine ⟨hid, ?_, ?_, ?_, fun {block} hblock hne => ?_⟩
  · rw [Disk.inode, after_append, after_cons, block_after, Effect.change, Disk.block_set,
      if_pos rfl, Inode.decode_encode]
    intro effect heffect htarget
    exact h.not_structural_of_onData hregular
      (honData effect (List.mem_append_right first heffect)) htarget hid.structural
  · rw [Inode.isDirectory_eq_false_of_isRegular hj,
      Inode.isDirectory_eq_false_of_isRegular hregular]
  · exact fun hdirectory => absurd hdirectory (Inode.not_isDirectory_of_isRegular hj)
  · apply block_after
    intro effect heffect htarget
    rcases List.mem_cons.mp (List.perm_middle.mem_iff.mp heffect) with rfl | hdata
    · exact hne (Option.some.inj htarget).symm
    · exact h.not_structural_of_onData hregular (honData effect hdata) htarget hblock

theorem changes {j : Inode} (hj : j.isRegular = true) (first last : List Effect)
    (honData : ∀ effect ∈ first ++ last, c.OnData diskSize id effect) {file : File}
    (hfile : (c.after (first ++ .store id j.encode :: last)).disk.fileOf j = file) :
    Disk.Changes c.disk (c.after (first ++ .store id j.encode :: last)).disk id file := by
  have hrewrites := h.rewrites hid hregular hj first last honData
  refine ⟨hrewrites.sameEntries h.consistent, ?_, ?_⟩
  · rw [Disk.file, hrewrites.inode]
    exact hfile
  · intro other hother hregular' hne
    apply h.file_after_other hid hother hne
    intro effect heffect
    rcases List.mem_cons.mp (List.perm_middle.mem_iff.mp heffect) with rfl | hdata
    · exact .inl rfl
    · exact .inr (honData effect hdata)

/-! ### Attributes and sizes -/

theorem changes_attributes {j : Inode} (hshape : (c.disk.inode id).SameShape j) :
    Disk.Changes c.disk (c.after [.store id j.encode]).disk id
      ⟨(c.disk.file id).bytes, j.mode, j.uid, j.gid, j.ctime, j.mtime⟩ := by
  refine h.changes hid hregular (hshape.isRegular.trans hregular) [] [] nofun ?_
  have hcontents : (c.after [.store id j.encode]).disk.contents j =
      c.disk.contents (c.disk.inode id) := by
    apply Disk.contents_congr hshape.length
    intro position hposition
    rw [← h.byteAt_after hid [.store id j.encode] (fun effect heffect block htarget => ?_)
        hposition,
      Disk.byteAt, Disk.byteAt, hshape.pointer]
    rw [List.mem_singleton.mp heffect] at htarget
    exact .inl (Option.some.inj htarget).symm
  rw [List.nil_append, Disk.fileOf, hcontents]
  rfl

theorem changes_truncate {length : Nat} (hlength : length ≤ (c.disk.inode id).length) :
    Disk.Changes c.disk (c.after (.store id ((c.disk.inode id).shrunk length).encode ::
        Effect.deallocate ((c.disk.inode id).dropped length))).disk id
      { c.disk.file id with bytes := (c.disk.file id).bytes.take length } := by
  have hlimit := Nat.le_trans hlength (h.consistent.formed hid).length_le
  have hcount := (c.disk.inode id).length_shrunk hlimit
  refine h.changes hid hregular (j := (c.disk.inode id).shrunk length) hregular []
    (Effect.deallocate ((c.disk.inode id).dropped length))
    (fun _ heffect => onData_of_bookkeeping (Effect.bookkeeping_deallocate heffect)) ?_
  have hcontents : (c.after (.store id ((c.disk.inode id).shrunk length).encode ::
      Effect.deallocate ((c.disk.inode id).dropped length))).disk.contents
        ((c.disk.inode id).shrunk length) = (c.disk.contents (c.disk.inode id)).take length := by
    rw [Disk.contents_eq_take (i := c.disk.inode id) (by rwa [hcount]) fun position hposition => ?_,
      hcount]
    rw [hcount] at hposition
    rw [← h.byteAt_after hid (.store id ((c.disk.inode id).shrunk length).encode ::
        Effect.deallocate ((c.disk.inode id).dropped length)) (fun effect heffect block heq => ?_)
        (Nat.lt_of_lt_of_le hposition hlength),
      Disk.byteAt, Disk.byteAt, Inode.pointer_shrunk]
    · rw [lt_blocksToHold_iff]
      exact Nat.lt_of_le_of_lt (Nat.div_mul_le_self position blockSize) hposition
    · rcases List.mem_cons.mp heffect with rfl | heffect
      · exact .inl (Option.some.inj heq).symm
      · exact .inr (Effect.bookkeeping_deallocate heffect block heq)
  rw [List.nil_append, Disk.fileOf, hcontents]
  rfl

end Mounted

/-! ### Bytes -/

section

variable {offset : Nat} {bytes : List UInt8} {blocks : List UInt32} (h : c.Mounted diskSize)
  (he : Extends c diskSize id (offset + bytes.length) blocks) (now : UInt32)

include h he

theorem Extends.pointer_injective {index other : Nat}
    (hindex : index < ((c.disk.inode id).written now (offset + bytes.length) blocks).blockCount)
    (hother : other < ((c.disk.inode id).written now (offset + bytes.length) blocks).blockCount)
    (heq : ((c.disk.inode id).written now (offset + bytes.length) blocks).pointer index =
      ((c.disk.inode id).written now (offset + bytes.length) blocks).pointer other) :
    index = other := by
  have hinode := (he.rewrites now).inode
  have hreachable := ((he.rewrites now).reachable_iff h.consistent).mpr he.reachable
  refine (he.written_store h now).mounted.consistent.pointer_injective hreachable ?_ ?_ ?_
  · rwa [after_cons, after_nil, Effect.change, hinode]
  · rwa [after_cons, after_nil, Effect.change, hinode]
  · rwa [after_cons, after_nil, Effect.change, hinode]

theorem Extends.onData_patches {effect : Effect} (heffect : effect ∈
      ((c.disk.inode id).written now (offset + bytes.length) blocks).patches offset bytes) :
    c.OnData diskSize id effect := by
  have hformed := h.consistent.formed he.reachable
  obtain ⟨k, start, part, rfl, hk, -⟩ := Inode.mem_patches he.limit heffect
  have hcount := Inode.blocksToHold_written hformed he.length
  have hmono := blocksToHold_mono
    (Nat.le_max_right (c.disk.inode id).length (offset + bytes.length))
  have hlimit := blocksToHold_le_pointerCount (Inode.max_length_le hformed he.limit)
  rw [hcount] at hmono hlimit
  intro block htarget
  have hblock := (Inode.exists_pointer_written now hlimit).mp
    ⟨k, Nat.lt_of_lt_of_le hk hmono, Option.some.inj htarget⟩
  rcases hblock with ⟨l, hl, rfl⟩ | hmem
  · refine .inr (.inl ⟨l, Disk.refers_pointer he.reachable ?_⟩)
    rwa [Inode.held_of_isRegular he.regular]
  · exact .inr (.inr (he.spare block hmem))

theorem Extends.byteAt_before {position : Nat} (hposition : position < (c.disk.inode id).length) :
    (c.after (Effect.growth blocks ++ [.store id
        ((c.disk.inode id).written now (offset + bytes.length) blocks).encode])).disk.byteAt
          ((c.disk.inode id).written now (offset + bytes.length) blocks) position =
      c.disk.byteAt (c.disk.inode id) position := by
  rw [← h.byteAt_after he.reachable (Effect.growth blocks ++ [.store id
      ((c.disk.inode id).written now (offset + bytes.length) blocks).encode])
      (fun effect heffect block htarget => ?_) hposition,
    Disk.byteAt, Disk.byteAt, Inode.pointer_written _ _ _ _
      (Inode.div_lt_blockCount (h.consistent.formed he.reachable) hposition)]
  rcases List.mem_append.mp heffect with hmem | hmem
  · exact .inr (Effect.bookkeeping_growth hmem block htarget)
  · rw [List.mem_singleton.mp hmem] at htarget
    exact .inl (Option.some.inj htarget).symm

theorem Extends.distinct {position : Nat}
    (hposition : position < max (c.disk.inode id).length (offset + bytes.length)) (index : Nat)
    (hindex : index * blockSize < offset + bytes.length)
    (heq : ((c.disk.inode id).written now (offset + bytes.length) blocks).pointer index =
      ((c.disk.inode id).written now (offset + bytes.length) blocks).pointer
        (position / blockSize)) : index = position / blockSize := by
  have hformed := h.consistent.formed he.reachable
  have hcount := Inode.blockCount_written hformed now he.limit he.length
  have htotal := Inode.blocksToHold_written hformed he.length
  refine he.pointer_injective h now ?_ ?_ heq
  · rw [hcount, ← htotal, lt_blocksToHold_iff]
    exact Nat.lt_of_lt_of_le hindex (Nat.le_max_right _ _)
  · rw [hcount, ← htotal, lt_blocksToHold_iff]
    exact Nat.lt_of_le_of_lt (Nat.div_mul_le_self position blockSize) hposition

theorem Extends.byteAt_patched {position : Nat}
    (hposition : position < max (c.disk.inode id).length (offset + bytes.length)) (c' : Content) :
    some ((c'.after (((c.disk.inode id).written now (offset + bytes.length) blocks).patches offset
        bytes)).disk.byteAt ((c.disk.inode id).written now (offset + bytes.length) blocks)
          position) =
      if offset ≤ position ∧ position < offset + bytes.length then bytes[position - offset]?
      else some (c'.disk.byteAt ((c.disk.inode id).written now (offset + bytes.length) blocks)
        position) :=
  byteAt_after_patches (he.distinct h now hposition)

theorem Extends.contents_after (hoffset : offset ≤ (c.disk.inode id).length) :
    (c.after (Effect.growth blocks ++
        .store id ((c.disk.inode id).written now (offset + bytes.length) blocks).encode ::
          ((c.disk.inode id).written now (offset + bytes.length) blocks).patches offset
            bytes)).disk.contents ((c.disk.inode id).written now (offset + bytes.length) blocks) =
      (c.disk.contents (c.disk.inode id)).take offset ++ bytes ++
        (c.disk.contents (c.disk.inode id)).drop (offset + bytes.length) := by
  have hlength := Inode.length_written (h.consistent.formed he.reachable) now he.limit blocks
  rw [← List.singleton_append, ← List.append_assoc, after_append]
  apply Disk.contents_eq_splice hoffset hlength
  · intro position hlow hhigh
    have hbyte := he.byteAt_patched h now
      (Nat.lt_of_lt_of_le hhigh (Nat.le_max_right _ _)) (c.after (Effect.growth blocks ++ [.store id
        ((c.disk.inode id).written now (offset + bytes.length) blocks).encode]))
    rw [if_pos ⟨hlow, hhigh⟩] at hbyte
    exact hbyte.symm
  · intro position hposition hout
    have hbyte := he.byteAt_patched h now
      (Nat.lt_of_lt_of_le hposition (Nat.le_max_left _ _)) (c.after (Effect.growth blocks ++ [.store
        id ((c.disk.inode id).written now (offset + bytes.length) blocks).encode]))
    rw [if_neg (by omega), he.byteAt_before h now hposition] at hbyte
    exact Option.some.inj hbyte

theorem Extends.onData_rest : ∀ effect ∈ Effect.growth blocks ++
    ((c.disk.inode id).written now (offset + bytes.length) blocks).patches offset bytes,
      c.OnData diskSize id effect := by
  intro effect heffect
  rcases List.mem_append.mp heffect with hmem | hmem
  · exact onData_of_bookkeeping (Effect.bookkeeping_growth hmem)
  · exact he.onData_patches h now hmem

/-- Writing replaces the bytes of a range, and sets the time. -/
theorem Extends.changes (hoffset : offset ≤ (c.disk.inode id).length) :
    Disk.Changes c.disk (c.after (Effect.growth blocks ++
        .store id ((c.disk.inode id).written now (offset + bytes.length) blocks).encode ::
          ((c.disk.inode id).written now (offset + bytes.length) blocks).patches offset bytes)).disk
      id { c.disk.file id with
        bytes := (c.disk.file id).bytes.take offset ++ bytes ++
          (c.disk.file id).bytes.drop (offset + bytes.length)
        mtime := now } := by
  refine h.changes he.reachable he.regular
    (j := (c.disk.inode id).written now (offset + bytes.length) blocks) he.regular
    (Effect.growth blocks)
    (((c.disk.inode id).written now (offset + bytes.length) blocks).patches offset bytes)
    (he.onData_rest h now) ?_
  rw [Disk.fileOf, he.contents_after h now hoffset]
  rfl

end

end Content

end BlockFS
