import BlockFS.Proofs.Codec.Inode
import BlockFS.Proofs.Tree.Walk

/-!
Writes that leave the tree as it is, and writes that replace an inode. A tree depends only on its
structural blocks, those of its inodes and of the slots of its directories: writing any other block
changes nothing in it. Replacing an inode changes only what its pointers refer to.
-/

set_option autoImplicit false
set_option relaxedAutoImplicit false

namespace BlockFS.Disk

variable {d d' : Disk} {diskSize : UInt32}

/-- The blocks of the inodes of the tree and of the slots of its directories. -/
def Structural (d : Disk) (block : UInt32) : Prop :=
  d.Reachable block ∨
    ∃ id, d.Reachable id ∧ (d.inode id).isDirectory = true ∧ (d.inode id).slotsBlock = block

theorem Reachable.structural {id : UInt32} (h : d.Reachable id) : d.Structural id := .inl h

theorem structural_slotsBlock {id : UInt32} (h : d.Reachable id)
    (hdirectory : (d.inode id).isDirectory = true) : d.Structural (d.inode id).slotsBlock :=
  .inr ⟨id, h, hdirectory, rfl⟩

theorem Structural.referred {block : UInt32} (h : d.Structural block) :
    ∃ place, d.Refers place block := by
  rcases h with hreachable | ⟨id, hid, hdirectory, rfl⟩
  · obtain ⟨place, hplace, -⟩ := hreachable.referred
    exact ⟨place, hplace⟩
  · exact ⟨_, refers_slotsBlock hid hdirectory⟩

theorem Spare.not_structural {block : UInt32} (h : d.Spare diskSize block) :
    ¬ d.Structural block := by
  intro hstructural
  obtain ⟨place, hplace⟩ := hstructural.referred
  exact h.unreferred place hplace

theorem Consistent.not_structural_data (h : d.Consistent diskSize) {inode block : UInt32}
    {k : Fin pointerCount} (hblock : d.Refers (.pointer inode k) block)
    (hregular : (d.inode inode).isDirectory = false) : ¬ d.Structural block := by
  rintro (hreachable | ⟨id, hid, hdirectory, rfl⟩)
  · exact h.ne_pointer hreachable hblock rfl
  · have hplace := h.distinct hblock (refers_slotsBlock hid hdirectory)
    injection hplace with hinode
    rw [hinode, hdirectory] at hregular
    cases hregular

theorem atDepth_iff
    (hlinks : ∀ {id}, d.Reachable id → ∀ k child, d'.Links id k child ↔ d.Links id k child)
    {depth : Nat} {id : UInt32} : d'.AtDepth depth id ↔ d.AtDepth depth id := by
  constructor
  · intro h
    induction h with
    | root => exact .root
    | child _ hlink ih => exact .child ih ((hlinks ⟨_, ih⟩ _ _).mp hlink)
  · intro h
    induction h with
    | root => exact .root
    | child hparent hlink ih => exact .child ih ((hlinks ⟨_, hparent⟩ _ _).mpr hlink)

theorem reachable_iff
    (hlinks : ∀ {id}, d.Reachable id → ∀ k child, d'.Links id k child ↔ d.Links id k child)
    {id : UInt32} : d'.Reachable id ↔ d.Reachable id :=
  exists_congr fun _ => atDepth_iff hlinks

/-- The inodes of the first tree are of the same type on the second disk, and directories among them
have the same slots. -/
structure SameEntries (d d' : Disk) : Prop where
  isDirectory : ∀ {id}, d.Reachable id → (d'.inode id).isDirectory = (d.inode id).isDirectory
  slots : ∀ {id}, d.Reachable id → (d.inode id).isDirectory = true → d'.slots id = d.slots id

namespace SameEntries

variable (h : SameEntries d d')

include h

theorem links_iff {id : UInt32} (hid : d.Reachable id) (k : Fin slotCount) (child : UInt32) :
    d'.Links id k child ↔ d.Links id k child := by
  constructor
  · rintro ⟨hdirectory, hused, hinode⟩
    rw [h.isDirectory hid] at hdirectory
    rw [h.slots hid hdirectory] at hused hinode
    exact ⟨hdirectory, hused, hinode⟩
  · rintro ⟨hdirectory, hused, hinode⟩
    rw [← h.slots hid hdirectory] at hused hinode
    rw [← h.isDirectory hid] at hdirectory
    exact ⟨hdirectory, hused, hinode⟩

theorem atDepth_iff {depth : Nat} {id : UInt32} : d'.AtDepth depth id ↔ d.AtDepth depth id :=
  Disk.atDepth_iff h.links_iff

theorem reachable_iff {id : UInt32} : d'.Reachable id ↔ d.Reachable id :=
  Disk.reachable_iff h.links_iff

theorem named (hd : d.Consistent diskSize) {id child : UInt32} {k : Fin slotCount}
    (hid : d'.Reachable id) (hlink : d'.Links id k child) :
    ∃ name, Path.IsComponent name ∧ ((d'.slots id).get k).name = name.toField := by
  have hid' := h.reachable_iff.mp hid
  have hlink' := (h.links_iff hid' _ _).mp hlink
  rw [h.slots hid' hlink'.directory]
  exact hd.named hid' hlink'

theorem unique (hd : d.Consistent diskSize) {id child other : UInt32} {k l : Fin slotCount}
    (hid : d'.Reachable id) (hlink : d'.Links id k child) (hother : d'.Links id l other)
    (hname : ((d'.slots id).get k).storedName = ((d'.slots id).get l).storedName) : k = l := by
  have hid' := h.reachable_iff.mp hid
  have hlink' := (h.links_iff hid' _ _).mp hlink
  rw [h.slots hid' hlink'.directory] at hname
  exact hd.unique hid' hlink' ((h.links_iff hid' _ _).mp hother) hname

end SameEntries

def SameTree (d d' : Disk) : Prop := ∀ {block}, d.Structural block → d'.block block = d.block block

namespace SameTree

variable (h : SameTree d d')

include h

theorem inode_eq {id : UInt32} (hid : d.Reachable id) : d'.inode id = d.inode id := by
  rw [inode, inode, h hid.structural]

theorem slots_eq {id : UInt32} (hid : d.Reachable id)
    (hdirectory : (d.inode id).isDirectory = true) : d'.slots id = d.slots id := by
  rw [slots, slots, h.inode_eq hid, h (structural_slotsBlock hid hdirectory)]

theorem sameEntries : SameEntries d d' where
  isDirectory hid := by rw [h.inode_eq hid]
  slots hid hdirectory := h.slots_eq hid hdirectory

theorem reachable_iff {id : UInt32} : d'.Reachable id ↔ d.Reachable id :=
  h.sameEntries.reachable_iff

theorem refers_iff {place : Place} {id : UInt32} : d'.Refers place id ↔ d.Refers place id := by
  cases place with
  | root => exact Iff.rfl
  | slot directory k =>
    simp only [Refers, h.reachable_iff]
    exact and_congr_right fun hdirectory => h.sameEntries.links_iff hdirectory k id
  | pointer inode k =>
    simp only [Refers, h.reachable_iff]
    exact and_congr_right fun hinode => by rw [h.inode_eq hinode]

theorem consistent (hd : d.Consistent diskSize) : d'.Consistent diskSize where
  formed hid := by
    have hid' := h.reachable_iff.mp hid
    exact h.inode_eq hid' ▸ hd.formed hid'
  root_directory := h.inode_eq reachable_root ▸ hd.root_directory
  root_slots := h.inode_eq reachable_root ▸ hd.root_slots
  inside hplace := hd.inside (h.refers_iff.mp hplace)
  distinct hplace hplace' := hd.distinct (h.refers_iff.mp hplace) (h.refers_iff.mp hplace')
  named hid hlink := h.sameEntries.named hd hid hlink
  unique hid hlink hother hname := h.sameEntries.unique hd hid hlink hother hname
  shallow hdepth := hd.shallow (h.sameEntries.atDepth_iff.mp hdepth)

end SameTree

/-- The second disk differs from the first, as far as the tree goes, in one inode. It keeps its
type, and the slots of a directory stay where they are. -/
structure Rewrites (d d' : Disk) (id : UInt32) (i : Inode) : Prop where
  reachable : d.Reachable id
  inode : d'.inode id = i
  directory : i.isDirectory = (d.inode id).isDirectory
  slots : i.isDirectory = true → i.slotsBlock = (d.inode id).slotsBlock
  others : ∀ {block}, d.Structural block → block ≠ id → d'.block block = d.block block

theorem rewrites_set {id : UInt32} {i : Inode} (hid : d.Reachable id)
    (hdirectory : i.isDirectory = (d.inode id).isDirectory)
    (hslots : i.isDirectory = true → i.slotsBlock = (d.inode id).slotsBlock) :
    Rewrites d (d.set id i.encode) id i where
  reachable := hid
  inode := by rw [Disk.inode, block_set, if_pos rfl, Inode.decode_encode]
  directory := hdirectory
  slots := hslots
  others _ hne := by rw [block_set, if_neg (Ne.symm hne)]

namespace Rewrites

variable {id : UInt32} {i : Inode} (h : Rewrites d d' id i) (hd : d.Consistent diskSize)

include h

theorem inode_eq {other : UInt32} (hother : d.Reachable other) (hne : other ≠ id) :
    d'.inode other = d.inode other := by
  rw [Disk.inode, Disk.inode, h.others hother.structural hne]

theorem isDirectory_eq {other : UInt32} (hother : d.Reachable other) :
    (d'.inode other).isDirectory = (d.inode other).isDirectory := by
  by_cases hne : other = id
  · rw [hne, h.inode, h.directory]
  · rw [h.inode_eq hother hne]

theorem slotsBlock_eq {other : UInt32} (hother : d.Reachable other)
    (hdirectory : (d.inode other).isDirectory = true) :
    (d'.inode other).slotsBlock = (d.inode other).slotsBlock := by
  by_cases hne : other = id
  · rw [hne] at hdirectory ⊢
    rw [h.inode, h.slots (h.directory.trans hdirectory)]
  · rw [h.inode_eq hother hne]

include hd

theorem slots_eq {other : UInt32} (hother : d.Reachable other)
    (hdirectory : (d.inode other).isDirectory = true) : d'.slots other = d.slots other := by
  rw [Disk.slots, Disk.slots, h.slotsBlock_eq hother hdirectory,
    h.others (structural_slotsBlock hother hdirectory)
      (hd.ne_slotsBlock h.reachable hother hdirectory).symm]

theorem sameEntries : SameEntries d d' where
  isDirectory hother := h.isDirectory_eq hother
  slots hother hdirectory := h.slots_eq hd hother hdirectory

theorem reachable_iff {other : UInt32} : d'.Reachable other ↔ d.Reachable other :=
  (h.sameEntries hd).reachable_iff

/-- What the tree refers to afterwards: as before, but for the pointers of the new inode. -/
theorem refers_iff {place : Place} {block : UInt32} : d'.Refers place block ↔
    (d.Refers place block ∧ ∀ k, place ≠ .pointer id k) ∨
      ∃ k, place = .pointer id k ∧ k.val < i.held ∧ i.pointers.get k = block := by
  cases place with
  | root => simp [Refers]
  | slot directory k =>
    simp only [Refers, h.reachable_iff hd, ne_eq, reduceCtorEq, not_false_eq_true, implies_true,
      and_true, false_and, exists_false, or_false]
    exact and_congr_right fun hdirectory => (h.sameEntries hd).links_iff hdirectory k block
  | pointer inode k =>
    by_cases hne : inode = id
    · subst hne
      simp only [Refers, h.reachable_iff hd, h.inode, h.reachable, true_and, ne_eq,
        Place.pointer.injEq, forall_eq', and_false, false_or, exists_eq_left']
    · simp only [Refers, h.reachable_iff hd, ne_eq, Place.pointer.injEq, hne, false_and,
        not_false_eq_true, implies_true, and_true, exists_false, or_false]
      exact and_congr_right fun hinode => by rw [h.inode_eq hinode hne]

end Rewrites

/-- The pointers of a new inode: as before, or to blocks of the file system that the tree does not
refer to, each of them once. -/
structure Repoints (d : Disk) (diskSize id : UInt32) (i : Inode) : Prop where
  pointers : ∀ k : Fin pointerCount, k.val < i.held →
    (k.val < (d.inode id).held ∧ i.pointers.get k = (d.inode id).pointers.get k) ∨
      ((d.inode id).held ≤ k.val ∧ d.Spare diskSize (i.pointers.get k))
  added : ∀ k l : Fin pointerCount, (d.inode id).held ≤ k.val → k.val < i.held →
    (d.inode id).held ≤ l.val → l.val < i.held → i.pointers.get k = i.pointers.get l → k = l

namespace Repoints

variable {id : UInt32} {i : Inode} (hp : Repoints d diskSize id i) (hd : d.Consistent diskSize)
  (hid : d.Reachable id)

include hp hd hid

theorem eq_pointer {place : Place} {k : Fin pointerCount} (hk : k.val < i.held)
    (hplace : d.Refers place (i.pointers.get k)) : place = .pointer id k := by
  rcases hp.pointers k hk with ⟨hold, heq⟩ | ⟨-, hspare⟩
  · rw [heq] at hplace
    exact hd.distinct hplace (refers_pointer hid hold)
  · exact (hspare.unreferred _ hplace).elim

theorem injective {k l : Fin pointerCount} (hk : k.val < i.held) (hl : l.val < i.held)
    (heq : i.pointers.get k = i.pointers.get l) : k = l := by
  rcases hp.pointers l hl with ⟨hold, hsame⟩ | ⟨hlow, hspare⟩
  · -- A kept pointer is a place of the old tree.
    have hplace := refers_pointer hid hold
    rw [← hsame, ← heq] at hplace
    have hplaces := hp.eq_pointer hd hid hk hplace
    injection hplaces with _ hindices
    exact hindices.symm
  · rcases hp.pointers k hk with ⟨hold, hsame⟩ | ⟨hlow', -⟩
    · have hplace := refers_pointer hid hold
      rw [← hsame, heq] at hplace
      exact (hspare.unreferred _ hplace).elim
    · exact hp.added k l hlow' hk hlow hl heq

end Repoints

theorem Rewrites.consistent {id : UInt32} {i : Inode} (h : Rewrites d d' id i)
    (hd : d.Consistent diskSize) (hi : i.WellFormed) (hp : Repoints d diskSize id i) :
    d'.Consistent diskSize where
  formed {other} hother := by
    have hother' := (h.reachable_iff hd).mp hother
    by_cases hne : other = id
    · rw [hne, h.inode]
      exact hi
    · rw [h.inode_eq hother' hne]
      exact hd.formed hother'
  root_directory := (h.isDirectory_eq reachable_root).trans hd.root_directory
  root_slots := (h.slotsBlock_eq reachable_root hd.root_directory).trans hd.root_slots
  inside {place block} hplace hroot hslots := by
    rcases (h.refers_iff hd).mp hplace with ⟨hold, -⟩ | ⟨k, rfl, hk, rfl⟩
    · exact hd.inside hold hroot hslots
    · rcases hp.pointers k hk with ⟨hk', heq⟩ | ⟨-, hspare⟩
      · rw [heq]
        exact hd.inside (refers_pointer h.reachable hk') hroot hslots
      · exact ⟨hspare.low, hspare.high⟩
  distinct {place place' block} hplace hplace' := by
    rcases (h.refers_iff hd).mp hplace with ⟨hold, hne⟩ | ⟨k, rfl, hk, rfl⟩
    · rcases (h.refers_iff hd).mp hplace' with ⟨hold', -⟩ | ⟨l, rfl, hl, rfl⟩
      · exact hd.distinct hold hold'
      · exact hp.eq_pointer hd h.reachable hl hold
    · rcases (h.refers_iff hd).mp hplace' with ⟨hold', hne'⟩ | ⟨l, rfl, hl, heq⟩
      · exact (hp.eq_pointer hd h.reachable hk hold').symm
      · rw [hp.injective hd h.reachable hk hl heq.symm]
  named hother hlink := (h.sameEntries hd).named hd hother hlink
  unique hother hlink hsecond hname := (h.sameEntries hd).unique hd hother hlink hsecond hname
  shallow hdepth := hd.shallow ((h.sameEntries hd).atDepth_iff.mp hdepth)

end BlockFS.Disk
