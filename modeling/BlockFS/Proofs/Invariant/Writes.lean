import BlockFS.Proofs.Invariant.Step
import BlockFS.Proofs.Volume.DataPlans

/-!
The writes of the operations on a mounted content: that each is allowed, leaves the content mounted,
and changes the tree in the way of its kind.
-/

set_option autoImplicit false
set_option relaxedAutoImplicit false

namespace BlockFS

namespace Content

variable {c : Content} {diskSize : UInt32}

/-- What writes need and leave alone: they are allowed, they write other blocks than that of the
bitmap, the content stays mounted, what is held in memory stays, and the bitmaps and counters say of
the blocks what they did. -/
structure Written (c : Content) (diskSize : UInt32) (effects : List Effect) : Prop where
  allowed : Effect.AllAllowed effects c
  target : ∀ effect ∈ effects, effect.target ≠ some bitmapId
  mounted : (c.after effects).Mounted diskSize
  tracks : ∀ {used : UInt32 → Prop}, c.Tracks used → (c.after effects).Tracks used
  covers : ∀ {used : UInt32 → Prop}, c.Covers used → (c.after effects).Covers used
  volume : (c.after effects).volume = c.volume

def Proper (c : Content) (effect : Effect) : Prop :=
  effect.IsWrite ∧ effect.Allowed c ∧
    ∀ block, effect.target = some block → block ≠ superblockId ∧ block ≠ bitmapId

namespace Mounted

variable (h : c.Mounted diskSize)

include h

theorem written {effects : List Effect} (hproper : ∀ effect ∈ effects, c.Proper effect)
    (hconsistent : (c.after effects).disk.Consistent diskSize) :
    Written c diskSize effects := by
  have hwrites : ∀ effect ∈ effects, effect.IsWrite ∧ effect.target ≠ some bitmapId :=
    fun effect heffect => ⟨(hproper effect heffect).1,
      fun htarget => ((hproper effect heffect).2.2 _ htarget).2 rfl⟩
  have hsuper : ∀ effect ∈ effects, effect.target ≠ some superblockId :=
    fun effect heffect htarget => ((hproper effect heffect).2.2 _ htarget).1 rfl
  have hallowed : Effect.AllAllowed effects c := Effect.allAllowed_of_writes fun effect heffect =>
    ⟨(hproper effect heffect).1, (hproper effect heffect).2.1⟩
  refine ⟨hallowed, fun effect heffect => (hwrites effect heffect).2,
    h.after hsuper hconsistent, fun htracks => htracks.after_writes hwrites,
    fun hcovers => hcovers.after_writes hwrites,
    volume_after fun effect heffect => (hwrites effect heffect).1⟩

theorem proper_store {place : Place} {id : UInt32} (hid : c.disk.Refers place id)
    (contents : Block) : c.Proper (.store id contents) := by
  refine ⟨trivial, h.lt_size (h.consistent.bounds h.low hid).2, ?_⟩
  intro block htarget
  obtain rfl := Option.some.inj htarget
  exact h.consistent.ne_reserved h.low hid

theorem proper_spare {id : UInt32} (hid : c.disk.Spare diskSize id) (contents : Block) :
    c.Proper (.store id contents) := by
  refine ⟨trivial, h.lt_size hid.high, ?_⟩
  intro block htarget
  obtain rfl := Option.some.inj htarget
  exact ⟨fun heq => hid.not_inUse (.inl heq), fun heq => hid.not_inUse (.inr (.inl heq))⟩

theorem written_store {place : Place} {id : UInt32} (hid : c.disk.Refers place id)
    {contents : Block} (hconsistent : (c.disk.set id contents).Consistent diskSize) :
    Written c diskSize [.store id contents] := by
  refine h.written ?_ hconsistent
  intro effect heffect
  rw [List.mem_singleton.mp heffect]
  exact h.proper_store hid contents

/-! ### Attributes and sizes -/

section

variable {id : UInt32} (hid : c.disk.Reachable id)

include hid

theorem written_inode {j : Inode} (hconsistent : (c.disk.set id j.encode).Consistent diskSize) :
    Written c diskSize [.store id j.encode] := by
  obtain ⟨place, hplace, -⟩ := hid.referred
  exact h.written_store hplace hconsistent

theorem written_sameShape {j : Inode} (hshape : (c.disk.inode id).SameShape j) :
    Written c diskSize [.store id j.encode] :=
  h.written_inode hid
    (h.consistent.of_sameShape (Disk.rewrites_sameShape hid hshape) hshape)

theorem written_shrunk (hregular : (c.disk.inode id).isRegular = true) {length : Nat}
    (hlength : length ≤ (c.disk.inode id).length) :
    Written c diskSize [.store id ((c.disk.inode id).shrunk length).encode] :=
  h.written_inode hid
    (h.consistent.of_shrunk (Disk.rewrites_file hid hregular rfl) hregular hlength)

theorem written_grown (hregular : (c.disk.inode id).isRegular = true) (now : UInt32) {stop : Nat}
    (hstop : stop ≤ maxFileSize) {blocks : List UInt32}
    (hlength : blocks.length = blocksToHold stop - (c.disk.inode id).blockCount)
    (hnodup : blocks.Nodup) (hspare : ∀ block ∈ blocks, c.disk.Spare diskSize block) :
    Written c diskSize [.store id ((c.disk.inode id).written now stop blocks).encode] :=
  h.written_inode hid (h.consistent.of_written (Disk.rewrites_file hid hregular rfl) hregular hstop
    hlength hnodup hspare)

end

/-! ### Names -/

section

variable {parent child : UInt32} {k : Fin slotCount} (hparent : c.disk.Reachable parent)
  (hlink : c.disk.Links parent k child)

include hparent hlink

theorem written_detached (hleaf : ∀ j other, ¬ c.disk.Links child j other) :
    Written c diskSize [c.disk.detached parent k] :=
  h.written_store (Disk.refers_slotsBlock hparent hlink.directory)
    ((Disk.releases_set hparent hlink hleaf).consistent h.consistent)

theorem written_renamed {name : Name} (hname : Path.IsComponent name)
    (hfind : (c.disk.slots parent).find name = none) :
    Written c diskSize [c.disk.renamed parent k name] :=
  h.written_store (Disk.refers_slotsBlock hparent hlink.directory)
    ((Disk.renames_set hparent hlink hname hfind).consistent h.consistent)

end

/-! ### Bytes -/

theorem written_data {id : UInt32} (hid : c.disk.Reachable id)
    (hregular : (c.disk.inode id).isRegular = true) {effects : List Effect}
    (hdata : ∀ effect ∈ effects, ∃ (k : Fin pointerCount) (start : Nat) (part : List UInt8),
      effect = .overlay ((c.disk.inode id).pointers.get k) start part ∧
        k.val < (c.disk.inode id).blockCount ∧ start + part.length ≤ blockSize) :
    Written c diskSize effects ∧
      Disk.SameTree c.disk (c.after effects).disk := by
  have hrefers : ∀ k : Fin pointerCount, k.val < (c.disk.inode id).blockCount →
      c.disk.Refers (.pointer id k) ((c.disk.inode id).pointers.get k) := fun k hk =>
    Disk.refers_pointer hid (by rwa [Inode.held_of_isRegular hregular])
  have hfile := Inode.isDirectory_eq_false_of_isRegular hregular
  have hsame : Disk.SameTree c.disk (c.after effects).disk := by
    apply sameTree_after
    intro effect heffect block htarget
    obtain ⟨k, start, part, rfl, hk, -⟩ := hdata effect heffect
    obtain rfl := Option.some.inj htarget
    exact h.consistent.not_structural_data (hrefers k hk) hfile
  refine ⟨h.written ?_ (hsame.consistent h.consistent), hsame⟩
  intro effect heffect
  obtain ⟨k, start, part, rfl, hk, hfit⟩ := hdata effect heffect
  refine ⟨trivial, ⟨h.lt_size (h.consistent.bounds h.low (hrefers k hk)).2, hfit⟩, ?_⟩
  intro block htarget
  obtain rfl := Option.some.inj htarget
  exact h.consistent.ne_reserved h.low (hrefers k hk)

theorem written_patches {id : UInt32} (hid : c.disk.Reachable id)
    (hregular : (c.disk.inode id).isRegular = true) {offset : Nat} {bytes : List UInt8}
    (hlimit : offset + bytes.length ≤ maxFileSize)
    (hcount : blocksToHold (offset + bytes.length) ≤ (c.disk.inode id).blockCount)
    {effects : List Effect}
    (hdata : ∀ effect ∈ effects, effect ∈ (c.disk.inode id).patches offset bytes) :
    Written c diskSize effects ∧ Disk.SameTree c.disk (c.after effects).disk := by
  apply h.written_data hid hregular
  intro effect heffect
  obtain ⟨k, start, part, heq, hk, hfit⟩ := Inode.mem_patches hlimit (hdata effect heffect)
  exact ⟨k, start, part, heq, Nat.lt_of_lt_of_le hk hcount, hfit⟩

end Mounted

theorem Written.append {first second : List Effect} (hfirst : Written c diskSize first)
    (hsecond : Written (c.after first) diskSize second) :
    Written c diskSize (first ++ second) where
  allowed := Effect.allAllowed_append.mpr ⟨hfirst.allowed, hsecond.allowed⟩
  target effect heffect := (List.mem_append.mp heffect).elim (hfirst.target effect)
    (hsecond.target effect)
  mounted := by
    rw [after_append]
    exact hsecond.mounted
  tracks htracks := by
    rw [after_append]
    exact hsecond.tracks (hfirst.tracks htracks)
  covers hcovers := by
    rw [after_append]
    exact hsecond.covers (hfirst.covers hcovers)
  volume := by rw [after_append, hsecond.volume, hfirst.volume]

/-! ### Writing to a file -/

/-- A file and blocks that it can be given for a write up to `stop`. -/
structure Extends (c : Content) (diskSize id : UInt32) (stop : Nat) (blocks : List UInt32) : Prop
    where
  reachable : c.disk.Reachable id
  regular : (c.disk.inode id).isRegular = true
  limit : stop ≤ maxFileSize
  length : blocks.length = blocksToHold stop - (c.disk.inode id).blockCount
  nodup : blocks.Nodup
  spare : ∀ block ∈ blocks, c.disk.Spare diskSize block

theorem Extends.of_sameTree {id : UInt32} {stop : Nat} {blocks : List UInt32}
    (h : Extends c diskSize id stop blocks) {c' : Content} (hsame : Disk.SameTree c.disk c'.disk) :
    Extends c' diskSize id stop blocks where
  reachable := hsame.reachable_iff.mpr h.reachable
  regular := by
    rw [hsame.inode_eq h.reachable]
    exact h.regular
  limit := h.limit
  length := by
    rw [hsame.inode_eq h.reachable]
    exact h.length
  nodup := h.nodup
  spare block hblock := by
    have hspare := h.spare block hblock
    exact ⟨hspare.low, hspare.high, fun place hplace =>
      hspare.unreferred place (hsame.refers_iff.mp hplace)⟩

section

variable {id : UInt32} {offset : Nat} {bytes : List UInt8} {blocks : List UInt32}
  (h : c.Mounted diskSize) (he : Extends c diskSize id (offset + bytes.length) blocks)
  (now : UInt32)

include h he

theorem Extends.written_store : Written c diskSize
    [.store id ((c.disk.inode id).written now (offset + bytes.length) blocks).encode] :=
  h.written_grown he.reachable he.regular now he.limit he.length he.nodup he.spare

omit h in
theorem Extends.rewrites : Disk.Rewrites c.disk
    (c.disk.set id ((c.disk.inode id).written now (offset + bytes.length) blocks).encode) id
    ((c.disk.inode id).written now (offset + bytes.length) blocks) :=
  Disk.rewrites_file he.reachable he.regular rfl

theorem Extends.inUse_iff (block : UInt32) : (c.disk.set id
      ((c.disk.inode id).written now (offset + bytes.length) blocks).encode).InUse block ↔
    c.disk.InUse block ∨ block ∈ blocks :=
  h.consistent.inUse_of_written (he.rewrites now) he.regular he.limit he.length h.low

theorem Extends.written_data {effects : List Effect} (hdata : ∀ effect ∈ effects, effect ∈
      ((c.disk.inode id).written now (offset + bytes.length) blocks).patches offset bytes) :
    Written (c.after [.store id
        ((c.disk.inode id).written now (offset + bytes.length) blocks).encode]) diskSize effects ∧
      Disk.SameTree (c.disk.set id
          ((c.disk.inode id).written now (offset + bytes.length) blocks).encode)
        (c.after (.store id ((c.disk.inode id).written now (offset + bytes.length) blocks).encode ::
          effects)).disk := by
  have hstore := he.written_store h now
  have hformed := h.consistent.formed he.reachable
  have hinode := (he.rewrites now).inode
  have hreachable := ((he.rewrites now).reachable_iff h.consistent).mpr he.reachable
  refine hstore.mounted.written_patches hreachable
    ((congrArg Inode.isRegular hinode).trans he.regular) he.limit ?_ ?_
  · refine Nat.le_trans ?_ (Nat.le_of_eq (congrArg Inode.blockCount hinode).symm)
    rw [Inode.blockCount_written hformed now he.limit he.length,
      ← Inode.blocksToHold_written hformed he.length]
    exact blocksToHold_mono (Nat.le_max_right _ _)
  · intro effect heffect
    have hmem := hdata effect heffect
    rwa [← hinode] at hmem

end

end Content

end BlockFS
