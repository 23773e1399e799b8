import BlockFS.Proofs.Data.Contents
import BlockFS.Proofs.Invariant.Step

/-!
Which blocks belong to which inode. Effects that write only blocks of one inode, spare ones and the
bitmap leave the inodes, the slots and the data of all others as they are.
-/

set_option autoImplicit false
set_option relaxedAutoImplicit false

namespace BlockFS

namespace Disk

variable {d d' : Disk} {diskSize id other : UInt32}

/-- The places from which the tree refers to an inode and to the blocks of its own. -/
def OwnedBy (d : Disk) (id : UInt32) : Place → Prop
  | .pointer inode _ => inode = id
  | place => d.Refers place id

/-- Of the blocks that the tree refers to, the second disk differs in those of one inode only. -/
def TouchesOnly (d d' : Disk) (id : UInt32) : Prop :=
  ∀ ⦃place block⦄, d.Refers place block → ¬ d.OwnedBy id place → d'.block block = d.block block

theorem Reachable.owned (h : d.Reachable id) : ∃ place, d.OwnedBy id place ∧ d.Refers place id := by
  obtain ⟨place, hplace, hne⟩ := h.referred
  refine ⟨place, ?_, hplace⟩
  cases place with
  | pointer inode k => exact absurd rfl (hne inode k)
  | _ => exact hplace

namespace TouchesOnly

variable (h : TouchesOnly d d' id) (hother : d.Reachable other) (hne : other ≠ id)

include h hother hne

theorem inode_eq : d'.inode other = d.inode other := by
  obtain ⟨place, hplace, hpointer⟩ := hother.referred
  have howned : ¬ d.OwnedBy id place := by
    cases place with
    | pointer inode k => exact absurd rfl (hpointer inode k)
    | _ => exact fun howned => hne (refers_functional hplace howned)
  rw [inode, inode, h hplace howned]

theorem contents_eq (hd : d.Consistent diskSize) :
    d'.contents (d.inode other) = d.contents (d.inode other) := by
  apply contents_congr rfl
  intro position hposition
  obtain ⟨hk, hrefers⟩ := hd.refers_pointer_index hother
    (Inode.div_lt_blockCount (hd.formed hother) hposition)
  rw [byteAt, byteAt, h hrefers hne]

end TouchesOnly

end Disk

namespace Content

variable {c : Content} {diskSize id : UInt32} {effects : List Effect}

/-- An effect writes the bitmap, a spare block, or a block of one inode. -/
def Within (c : Content) (diskSize id : UInt32) (effect : Effect) : Prop :=
  ∀ block, effect.target = some block → block = bitmapId ∨ c.disk.Spare diskSize block ∨
    ∃ place, c.disk.OwnedBy id place ∧ c.disk.Refers place block

theorem within_of_bookkeeping {effect : Effect} (h : effect.Bookkeeping) :
    c.Within diskSize id effect := fun block htarget => .inl (h block htarget)

theorem within_spare {contents : Block} {block : UInt32} (h : c.disk.Spare diskSize block) :
    c.Within diskSize id (.store block contents) := by
  intro other htarget
  obtain rfl := Option.some.inj htarget
  exact .inr (.inl h)

theorem within_inode {contents : Block} (hid : c.disk.Reachable id) :
    c.Within diskSize id (.store id contents) := by
  intro other htarget
  obtain rfl := Option.some.inj htarget
  exact .inr (.inr hid.owned)

theorem within_slots {slots : Directory} (hid : c.disk.Reachable id)
    (hdirectory : (c.disk.inode id).isDirectory = true) :
    c.Within diskSize id (.storeSlots (c.disk.inode id) slots) := by
  intro other htarget
  obtain rfl := Option.some.inj htarget
  exact .inr (.inr ⟨Disk.slotsPlace id, rfl, Disk.refers_slotsBlock hid hdirectory⟩)

namespace Mounted

variable (h : c.Mounted diskSize) (hwithin : ∀ effect ∈ effects, c.Within diskSize id effect)

include h hwithin

theorem touchesOnly : Disk.TouchesOnly c.disk (c.after effects).disk id := by
  intro place block hplace howned
  apply block_after
  intro effect heffect htarget
  rcases hwithin effect heffect block htarget with heq | hspare | ⟨other, hother, hrefers⟩
  · exact (h.consistent.ne_reserved h.low hplace).2 heq
  · exact hspare.unreferred place hplace
  · exact howned (h.consistent.distinct hplace hrefers ▸ hother)

theorem block_outside {block : UInt32} (hblock : block = superblockId ∨ diskSize ≤ block) :
    (c.after effects).disk.block block = c.disk.block block := by
  apply block_after
  intro effect heffect htarget
  rcases hwithin effect heffect block htarget with rfl | hspare | ⟨place, -, hplace⟩
  · rcases hblock with hblock | hblock
    · exact absurd hblock (by decide)
    · exact UInt32.not_lt.mpr (UInt32.le_trans h.low hblock) (by decide)
  · rcases hblock with rfl | hblock
    · exact hspare.not_inUse (.inl rfl)
    · exact UInt32.not_lt.mpr hblock hspare.high
  · rcases hblock with rfl | hblock
    · exact (h.consistent.ne_reserved h.low hplace).1 rfl
    · exact UInt32.not_lt.mpr hblock (h.consistent.bounds h.low hplace).2

end Mounted

end Content

end BlockFS
