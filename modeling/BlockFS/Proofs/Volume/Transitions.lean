import BlockFS.Proofs.Data.Resize
import BlockFS.Proofs.Tree.InUse

/-!
The writes of the operations as changes of the tree: each of them keeps a disk consistent, and it is
known which blocks are in use afterwards.
-/

set_option autoImplicit false
set_option relaxedAutoImplicit false

namespace BlockFS

structure Inode.SameShape (i j : Inode) : Prop where
  mode : j.mode &&& typeMask = i.mode &&& typeMask
  size : j.size = i.size
  pointers : j.pointers = i.pointers

namespace Inode.SameShape

variable {i j : Inode} (h : SameShape i j)

include h

theorem isDirectory : j.isDirectory = i.isDirectory := by
  rw [Bool.eq_iff_iff, isDirectory_iff, isDirectory_iff, h.mode]

theorem isRegular : j.isRegular = i.isRegular := by
  rw [Bool.eq_iff_iff, isRegular_iff, isRegular_iff, h.mode]

theorem length : j.length = i.length := by rw [Inode.length, Inode.length, h.size]

theorem blockCount : j.blockCount = i.blockCount := by
  rw [Inode.blockCount, Inode.blockCount, h.length]

theorem held : j.held = i.held := by rw [Inode.held, Inode.held, h.isDirectory, h.blockCount]

theorem slotsBlock : j.slotsBlock = i.slotsBlock := by
  rw [Inode.slotsBlock, Inode.slotsBlock, h.pointers]

theorem pointer (index : Nat) : j.pointer index = i.pointer index := by
  rw [Inode.pointer, Inode.pointer, h.pointers]

end Inode.SameShape

theorem Inode.held_of_isRegular {i : Inode} (h : i.isRegular = true) : i.held = i.blockCount := by
  rw [Inode.held, Inode.isDirectory_eq_false_of_isRegular h, if_neg (by decide)]

namespace Disk

variable {d d' : Disk} {diskSize : UInt32}

theorem inUse_split {id block : UInt32} (hid : d.Reachable id) : d.InUse block ↔
    (d.InUse block ∧ ∀ k : Fin pointerCount, k.val < (d.inode id).held →
      (d.inode id).pointers.get k ≠ block) ∨
    ∃ k : Fin pointerCount, k.val < (d.inode id).held ∧ (d.inode id).pointers.get k = block := by
  constructor
  · intro h
    by_cases hpointer : ∃ k : Fin pointerCount, k.val < (d.inode id).held ∧
        (d.inode id).pointers.get k = block
    · exact .inr hpointer
    · exact .inl ⟨h, fun k hk heq => hpointer ⟨k, hk, heq⟩⟩
  · rintro (⟨h, -⟩ | ⟨k, hk, rfl⟩)
    · exact h
    · exact inUse_of_refers (refers_pointer hid hk)

/-! ### Attributes -/

theorem rewrites_sameShape {id : UInt32} {j : Inode} (hid : d.Reachable id)
    (hshape : (d.inode id).SameShape j) : Rewrites d (d.set id j.encode) id j :=
  rewrites_set hid hshape.isDirectory fun _ => hshape.slotsBlock

namespace Consistent

variable (hd : d.Consistent diskSize) {id : UInt32}

include hd

theorem of_sameShape {j : Inode} (hrewrites : Rewrites d d' id j)
    (hshape : (d.inode id).SameShape j) : d'.Consistent diskSize := by
  refine hrewrites.consistent hd ?_ ⟨?_, ?_⟩
  · exact (hd.formed hrewrites.reachable).of_same hshape.mode hshape.size hshape.pointers
  · intro k hk
    rw [hshape.held] at hk
    exact .inl ⟨hk, by rw [hshape.pointers]⟩
  · intro k l hk hk'
    rw [hshape.held] at hk'
    omega

theorem inUse_of_sameShape (hsize : firstFreeId ≤ diskSize) {j : Inode}
    (hrewrites : Rewrites d d' id j) (hshape : (d.inode id).SameShape j) {block : UInt32} :
    d'.InUse block ↔ d.InUse block := by
  rw [hrewrites.inUse_iff hd hsize, hshape.held, hshape.pointers,
    ← inUse_split hrewrites.reachable]

end Consistent

/-! ### Sizes of files -/

theorem rewrites_file {id : UInt32} {j : Inode} (hid : d.Reachable id)
    (hregular : (d.inode id).isRegular = true) (hmode : j.mode = (d.inode id).mode) :
    Rewrites d (d.set id j.encode) id j := by
  have hsame : j.isDirectory = (d.inode id).isDirectory := by
    rw [Inode.isDirectory, Inode.isDirectory, Inode.type, Inode.type, hmode]
  apply rewrites_set hid hsame
  intro hdirectory
  exact absurd (hsame.symm.trans hdirectory) (Inode.not_isDirectory_of_isRegular hregular)

namespace Consistent

variable (hd : d.Consistent diskSize) {id : UInt32} {length : Nat}
  (hrewrites : Rewrites d d' id ((d.inode id).shrunk length))
  (hregular : (d.inode id).isRegular = true) (hlength : length ≤ (d.inode id).length)

include hd hrewrites hregular hlength

private theorem held_shrunk : ((d.inode id).shrunk length).held = blocksToHold length ∧
    blocksToHold length ≤ (d.inode id).held := by
  have hformed := hd.formed hrewrites.reachable
  have hlimit := Nat.le_trans hlength hformed.length_le
  rw [Inode.held_of_isRegular (i := (d.inode id).shrunk length) hregular,
    Inode.blockCount_shrunk _ hlimit, Inode.held_of_isRegular hregular, hformed.blockCount]
  exact ⟨rfl, blocksToHold_mono hlength⟩

theorem of_shrunk : d'.Consistent diskSize := by
  obtain ⟨hheld, hle⟩ := hd.held_shrunk hrewrites hregular hlength
  have hlimit := Nat.le_trans hlength (hd.formed hrewrites.reachable).length_le
  refine hrewrites.consistent hd (Inode.shrunk_wellFormed hregular hlimit) ⟨?_, ?_⟩
  · intro k hk
    rw [hheld] at hk
    exact .inl ⟨Nat.lt_of_lt_of_le hk hle, by rw [Inode.get_shrunk, if_pos hk]⟩
  · intro k l hk hk'
    rw [hheld] at hk'
    omega

theorem inUse_of_shrunk (hsize : firstFreeId ≤ diskSize) {block : UInt32} :
    d'.InUse block ↔ d.InUse block ∧ block ∉ (d.inode id).dropped length := by
  obtain ⟨hheld, hle⟩ := hd.held_shrunk hrewrites hregular hlength
  have hcount := Inode.held_of_isRegular hregular
  rw [hrewrites.inUse_iff hd hsize, hheld, Inode.mem_dropped]
  constructor
  · rintro (⟨hused, hne⟩ | ⟨k, hk, heq⟩)
    · refine ⟨hused, ?_⟩
      rintro ⟨k, -, hk, heq⟩
      exact hne k (hcount ▸ hk) heq
    · rw [Inode.get_shrunk, if_pos hk] at heq
      have hk' := Nat.lt_of_lt_of_le hk hle
      refine ⟨heq ▸ inUse_of_refers (refers_pointer hrewrites.reachable hk'), ?_⟩
      rintro ⟨l, hl, hl', heq'⟩
      rw [← hcount] at hl'
      have hplace := hd.distinct (refers_pointer hrewrites.reachable hk')
        ((heq'.trans heq.symm) ▸ refers_pointer hrewrites.reachable hl')
      injection hplace with _ hindex
      rw [hindex] at hk
      exact absurd hk (Nat.not_lt.mpr hl)
  · rintro ⟨hused, hkept⟩
    rcases (inUse_split hrewrites.reachable).mp hused with hother | ⟨k, hk, heq⟩
    · exact .inl hother
    · have hlow : k.val < blocksToHold length := by
        by_contra hhigh
        exact hkept ⟨k, Nat.le_of_not_lt hhigh, hcount ▸ hk, heq⟩
      exact .inr ⟨k, hlow, by rwa [Inode.get_shrunk, if_pos hlow]⟩

end Consistent

namespace Consistent

variable (hd : d.Consistent diskSize) {id now : UInt32} {stop : Nat} {blocks : List UInt32}
  (hrewrites : Rewrites d d' id ((d.inode id).written now stop blocks))
  (hregular : (d.inode id).isRegular = true) (hstop : stop ≤ maxFileSize)
  (hlength : blocks.length = blocksToHold stop - (d.inode id).blockCount)

include hd hrewrites hregular hstop hlength

private theorem held_written : (d.inode id).held = (d.inode id).blockCount ∧
    ((d.inode id).written now stop blocks).held = (d.inode id).blockCount + blocks.length ∧
    (d.inode id).blockCount + blocks.length ≤ pointerCount := by
  have hformed := hd.formed hrewrites.reachable
  have hcount := Inode.blockCount_written hformed now hstop hlength
  refine ⟨Inode.held_of_isRegular hregular, ?_, ?_⟩
  · rw [Inode.held_of_isRegular (i := (d.inode id).written now stop blocks) hregular, hcount]
  · rw [← hcount]
    exact Inode.blockCount_le _

theorem of_written (hnodup : blocks.Nodup) (hspare : ∀ block ∈ blocks, d.Spare diskSize block) :
    d'.Consistent diskSize := by
  obtain ⟨hcount, hheld, -⟩ := hd.held_written hrewrites hregular hstop hlength
  have hformed := hd.formed hrewrites.reachable
  have hadded : ∀ k : Fin pointerCount, ∀ hk : (d.inode id).held ≤ k.val,
      ∀ hk' : k.val < ((d.inode id).written now stop blocks).held,
      ((d.inode id).written now stop blocks).pointers.get k =
        getElem blocks (k.val - (d.inode id).blockCount) (by omega) := by
    intro k hk hk'
    rw [Inode.get_written, if_neg (by omega), List.getD_eq_getElem?_getD,
      List.getElem?_eq_getElem (by omega), Option.getD_some]
  refine hrewrites.consistent hd
    (Inode.written_wellFormed hformed now hstop hlength hregular) ⟨?_, ?_⟩
  · intro k hk
    by_cases hold : k.val < (d.inode id).held
    · exact .inl ⟨hold, by rw [Inode.get_written, if_pos (hcount ▸ hold)]⟩
    · refine .inr ⟨Nat.le_of_not_lt hold, ?_⟩
      rw [hadded k (Nat.le_of_not_lt hold) hk]
      exact hspare _ (List.getElem_mem _)
  · intro k l hk hk' hl hl' heq
    rw [hadded k hk hk', hadded l hl hl', List.Nodup.getElem_inj_iff hnodup] at heq
    exact Fin.ext (by omega)

theorem inUse_of_written (hsize : firstFreeId ≤ diskSize) {block : UInt32} :
    d'.InUse block ↔ d.InUse block ∨ block ∈ blocks := by
  obtain ⟨hcount, hheld, hlimit⟩ := hd.held_written hrewrites hregular hstop hlength
  rw [hrewrites.inUse_iff hd hsize, hheld, Inode.exists_pointer_written now hlimit, ← hcount,
    ← or_assoc, ← inUse_split hrewrites.reachable]

end Consistent

/-! ### Names -/

theorem leaf_of_file {id : UInt32} (hfile : (d.inode id).isDirectory = false) (k : Fin slotCount)
    (child : UInt32) : ¬ d.Links id k child := by
  intro hlink
  exact nomatch hfile.symm.trans hlink.directory

theorem leaf_of_unused {id : UInt32} (hunused : ∀ k, ((d.slots id).get k).used = false)
    (k : Fin slotCount) (child : UInt32) : ¬ d.Links id k child := by
  intro hlink
  exact nomatch (hunused k).symm.trans hlink.used

theorem releases_set {parent child : UInt32} {k : Fin slotCount} (hparent : d.Reachable parent)
    (hlink : d.Links parent k child) (hleaf : ∀ j other, ¬ d.Links child j other) :
    Releases d (d.set (d.inode parent).slotsBlock
      ((d.slots parent).put k ((d.slots parent).get k).release).encode) parent k child where
  relists := relists_set hparent hlink.directory k (by
    rw [Slot.inode_release]
    exact inode_slot_lt d parent k)
  link := hlink
  leaf := hleaf

theorem absent_of_find {parent : UInt32} {name : Name} (hname : Path.IsComponent name)
    (hfind : (d.slots parent).find name = none) (k : Fin slotCount)
    (hused : ((d.slots parent).get k).used = true) :
    ((d.slots parent).get k).storedName ≠ name := by
  have habsent := Directory.find_eq_none_iff.mp hfind k hused
  rwa [hname.canonical_eq] at habsent

theorem renames_set {parent child : UInt32} {k : Fin slotCount} {name : Name}
    (hparent : d.Reachable parent) (hlink : d.Links parent k child)
    (hname : Path.IsComponent name) (hfind : (d.slots parent).find name = none) :
    Renames d (d.set (d.inode parent).slotsBlock
      ((d.slots parent).put k (((d.slots parent).get k).rename name)).encode) parent k name where
  relists := relists_set hparent hlink.directory k (by
    rw [Slot.inode_rename]
    exact inode_slot_lt d parent k)
  used := hlink.used
  component := hname
  absent := absent_of_find hname hfind

/-- An inode that has no entries and points at the given blocks. -/
structure IsFresh (d : Disk) (id : UInt32) (blank : List UInt32) : Prop where
  formed : (d.inode id).WellFormed
  leaf : ∀ k other, ¬ d.Links id k other
  held_le : (d.inode id).held ≤ 1
  pointers : ∀ block, (∃ k : Fin pointerCount, k.val < (d.inode id).held ∧
    (d.inode id).pointers.get k = block) ↔ block ∈ blank

private theorem isFresh_regular {id permissions now : UInt32} {owner : Owner}
    (hfresh : d.inode id = Inode.fresh .regular permissions owner now none) : IsFresh d id [] := by
  obtain ⟨hformed, hfile, hempty⟩ := Inode.fresh_regular permissions owner now none
  rw [← hfresh] at hformed hfile hempty
  have hheld : (d.inode id).held = 0 := by
    rw [Inode.held, if_neg (by rw [hfile]; decide), hformed.blockCount, hempty]
    rfl
  refine ⟨hformed, leaf_of_file hfile, by omega, fun block => ?_⟩
  rw [hheld]
  constructor
  · rintro ⟨k, hk, -⟩
    exact absurd hk (Nat.not_lt_zero _)
  · intro hblock
    cases hblock

private theorem isFresh_directory {id slots permissions now : UInt32} {owner : Owner}
    (hfresh : d.inode id = Inode.fresh .directory permissions owner now (some slots))
    (hblank : d.block slots = Block.zero) : IsFresh d id [slots] := by
  obtain ⟨hformed, hdirectory, hslots⟩ := Inode.fresh_directory permissions owner now slots
  rw [← hfresh] at hformed hdirectory hslots
  have hheld : (d.inode id).held = 1 := by rw [Inode.held, if_pos hdirectory]
  have hempty : d.slots id = Directory.empty := by
    rw [Disk.slots, hslots, hblank, Directory.decode_zero]
  refine ⟨hformed, leaf_of_unused fun k => ?_, by omega, fun block => ?_⟩
  · rw [hempty, Directory.get_empty]
    rfl
  · rw [hheld, List.mem_singleton]
    constructor
    · rintro ⟨k, hk, rfl⟩
      have hzero : k = ⟨0, pointerCount_pos⟩ := Fin.ext (Nat.lt_one_iff.mp hk)
      rw [hzero]
      exact hslots
    · intro heq
      exact ⟨⟨0, pointerCount_pos⟩, Nat.one_pos, hslots.trans heq.symm⟩

theorem isFresh_new {id : UInt32} {blank : List UInt32} {type : FileType} {permissions now : UInt32}
    {owner : Owner} (hlength : (id :: blank).length = type.blockCount)
    (hinode : d'.block id = (Inode.fresh type permissions owner now blank.head?).encode)
    (hblank : ∀ block ∈ blank, d'.block block = Block.zero) : IsFresh d' id blank := by
  have hfresh : d'.inode id = Inode.fresh type permissions owner now blank.head? := by
    rw [inode, hinode, Inode.decode_encode]
  cases type with
  | regular =>
    obtain rfl : blank = [] := List.length_eq_zero_iff.mp (Nat.succ.inj hlength)
    exact isFresh_regular hfresh
  | directory =>
    obtain ⟨slots, rfl⟩ : ∃ slots, blank = [slots] :=
      List.length_eq_one_iff.mp (Nat.succ.inj hlength)
    exact isFresh_directory hfresh (hblank slots List.mem_cons_self)

theorem relists_new {parent id : UInt32} {k : Fin slotCount} {name : Name}
    (hparent : d.Reachable parent) (hdirectory : (d.inode parent).isDirectory = true)
    (hid : id < diskSize) (hlimit : diskSize.toNat ≤ maxDiskBlocks)
    (hslots : d'.block (d.inode parent).slotsBlock =
      ((d.slots parent).put k (Slot.entry id name)).encode)
    (hothers : ∀ {block}, d.Structural block → block ≠ (d.inode parent).slotsBlock →
      d'.block block = d.block block) :
    Relists d d' parent ((d.slots parent).put k (Slot.entry id name)) where
  reachable := hparent
  isDirectory := hdirectory
  relisted := by
    have hword := UInt32.lt_iff_toNat_lt.mp hid
    rw [hslots]
    refine Directory.decode_encode_put _ k ?_
    show id.toNat < slotLimit
    have hslotLimit : slotLimit = 2147483648 := rfl
    have hmaxDiskBlocks : maxDiskBlocks = 32768 := rfl
    omega
  others := hothers

section

variable {parent id now permissions : UInt32} {k : Fin slotCount} {name : Name}
  {blank : List UInt32} {type : FileType} {owner : Owner}
  (hparent : d.Reachable parent) (hdirectory : (d.inode parent).isDirectory = true)
  (hspare : ∀ block ∈ id :: blank, d.Spare diskSize block) (hnodup : (id :: blank).Nodup)
  (hlength : (id :: blank).length = type.blockCount) (hlimit : diskSize.toNat ≤ maxDiskBlocks)
  (hinode : d'.block id = (Inode.fresh type permissions owner now blank.head?).encode)
  (hslots : d'.block (d.inode parent).slotsBlock =
    ((d.slots parent).put k (Slot.entry id name)).encode)
  (hblank : ∀ block ∈ blank, d'.block block = Block.zero)
  (hothers : ∀ block, block ∉ id :: blank → block ≠ (d.inode parent).slotsBlock →
    d'.block block = d.block block)

include hparent hdirectory hspare hnodup hlength hlimit hinode hslots hblank hothers

theorem inserts_new (hname : Path.IsComponent name)
    (hfind : (d.slots parent).find name = none) (hunused : (d.slots parent).firstUnused = some k)
    (hdepth : ∃ depth, d.AtDepth depth parent ∧ depth < maxPathDepth) :
    Inserts d d' diskSize parent k name id where
  relists := by
    refine relists_new hparent hdirectory (hspare id List.mem_cons_self).high hlimit hslots ?_
    intro block hstructural hne
    exact hothers block (fun hmem => (hspare block hmem).not_structural hstructural) hne
  unused := (Directory.firstUnused_eq_some_iff.mp hunused).1
  component := hname
  absent := absent_of_find hname hfind
  depth := hdepth
  spare := hspare id List.mem_cons_self
  formed := (isFresh_new hlength hinode hblank).formed
  leaf := (isFresh_new hlength hinode hblank).leaf
  held_le := (isFresh_new hlength hinode hblank).held_le
  pointers k hk := by
    have hmem := ((isFresh_new hlength hinode hblank).pointers _).mp ⟨k, hk, rfl⟩
    refine ⟨hspare _ (List.mem_cons_of_mem id hmem), ?_⟩
    intro heq
    rw [heq] at hmem
    exact (List.nodup_cons.mp hnodup).1 hmem

end

end Disk

end BlockFS
