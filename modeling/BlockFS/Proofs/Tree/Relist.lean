import BlockFS.Proofs.Codec.Directory
import BlockFS.Proofs.Tree.Frame

/-!
Writes that replace the slots of a directory. Renaming a slot changes no link, releasing one takes a
leaf out of the tree, and filling one puts a new leaf into it.
-/

set_option autoImplicit false
set_option relaxedAutoImplicit false

namespace BlockFS

namespace Slot

theorem used_rename (s : Slot) (name : Name) : (s.rename name).used = s.used := rfl

theorem inode_rename (s : Slot) (name : Name) : (s.rename name).inode = s.inode := rfl

theorem used_release (s : Slot) : s.release.used = false := rfl

theorem inode_release (s : Slot) : s.release.inode = s.inode := rfl

end Slot

namespace Disk

variable {d d' : Disk} {diskSize : UInt32}

/-- The second disk differs from the first, as far as the tree goes, in the slots of a directory. -/
structure Relists (d d' : Disk) (directory : UInt32) (slots : Directory) : Prop where
  reachable : d.Reachable directory
  isDirectory : (d.inode directory).isDirectory = true
  relisted : Directory.decode (d'.block (d.inode directory).slotsBlock) = slots
  others : ∀ {block}, d.Structural block → block ≠ (d.inode directory).slotsBlock →
    d'.block block = d.block block

theorem relists_set {directory : UInt32} (hreachable : d.Reachable directory)
    (hdirectory : (d.inode directory).isDirectory = true) (k : Fin slotCount) {slot : Slot}
    (hslot : slot.inode.toNat < slotLimit) :
    Relists d (d.set (d.inode directory).slotsBlock ((d.slots directory).put k slot).encode)
      directory ((d.slots directory).put k slot) where
  reachable := hreachable
  isDirectory := hdirectory
  relisted := by
    rw [block_set, if_pos rfl]
    exact Directory.decode_encode_put _ k hslot
  others _ hne := by rw [block_set, if_neg (Ne.symm hne)]

theorem Relists.of_agree {d'' : Disk} {directory : UInt32} {slots : Directory}
    (h : Relists d d' directory slots)
    (hagree : ∀ {block}, d.Structural block → d''.block block = d'.block block) :
    Relists d d'' directory slots where
  reachable := h.reachable
  isDirectory := h.isDirectory
  relisted := by
    rw [hagree (structural_slotsBlock h.reachable h.isDirectory)]
    exact h.relisted
  others hblock hne := by rw [hagree hblock, h.others hblock hne]

theorem inode_slot_lt (d : Disk) (id : UInt32) (k : Fin slotCount) :
    ((d.slots id).get k).inode.toNat < slotLimit := Directory.inode_get_decode_lt _ k

theorem links_iff_get {id : UInt32} (hdirectory : (d.inode id).isDirectory = true)
    (k : Fin slotCount) (child : UInt32) : d.Links id k child ↔
      ((d.slots id).get k).used = true ∧ ((d.slots id).get k).inode = child :=
  ⟨fun h => ⟨h.used, h.inode⟩, fun h => ⟨hdirectory, h.1, h.2⟩⟩

namespace Relists

variable {directory : UInt32} {slots : Directory} (h : Relists d d' directory slots)
  (hd : d.Consistent diskSize)

include h hd

theorem inode_eq {id : UInt32} (hid : d.Reachable id) : d'.inode id = d.inode id := by
  rw [inode, inode, h.others hid.structural (hd.ne_slotsBlock hid h.reachable h.isDirectory)]

theorem slots_self : d'.slots directory = slots := by
  rw [Disk.slots, h.inode_eq hd h.reachable, h.relisted]

theorem slots_of_ne {id : UInt32} (hid : d.Reachable id)
    (hdirectory : (d.inode id).isDirectory = true) (hne : id ≠ directory) :
    d'.slots id = d.slots id := by
  rw [Disk.slots, Disk.slots, h.inode_eq hd hid, h.others (structural_slotsBlock hid hdirectory)]
  exact fun heq => hne (hd.slotsBlock_injective hid h.reachable hdirectory h.isDirectory heq)

theorem links_of_ne {id : UInt32} (hid : d.Reachable id) (hne : id ≠ directory)
    (k : Fin slotCount) (child : UInt32) : d'.Links id k child ↔ d.Links id k child := by
  constructor
  · rintro ⟨hdirectory, hused, hinode⟩
    rw [h.inode_eq hd hid] at hdirectory
    rw [h.slots_of_ne hd hid hdirectory hne] at hused hinode
    exact ⟨hdirectory, hused, hinode⟩
  · rintro ⟨hdirectory, hused, hinode⟩
    rw [← h.slots_of_ne hd hid hdirectory hne] at hused hinode
    rw [← h.inode_eq hd hid] at hdirectory
    exact ⟨hdirectory, hused, hinode⟩

theorem links_self (k : Fin slotCount) (child : UInt32) :
    d'.Links directory k child ↔ (slots.get k).used = true ∧ (slots.get k).inode = child := by
  constructor
  · rintro ⟨-, hused, hinode⟩
    rw [h.slots_self hd] at hused hinode
    exact ⟨hused, hinode⟩
  · rintro ⟨hused, hinode⟩
    rw [← h.slots_self hd] at hused hinode
    exact ⟨(h.inode_eq hd h.reachable) ▸ h.isDirectory, hused, hinode⟩

end Relists

/-! ### Renaming -/

/-- The second disk differs from the first in the name of one slot, which no slot of the same
directory has. -/
structure Renames (d d' : Disk) (directory : UInt32) (position : Fin slotCount) (name : Name) :
    Prop where
  relists : Relists d d' directory
    ((d.slots directory).put position (((d.slots directory).get position).rename name))
  used : ((d.slots directory).get position).used = true
  component : Path.IsComponent name
  absent : ∀ k, ((d.slots directory).get k).used = true →
    ((d.slots directory).get k).storedName ≠ name

namespace Renames

variable {directory : UInt32} {position : Fin slotCount} {name : Name}
  (h : Renames d d' directory position name) (hd : d.Consistent diskSize)

include h hd

theorem get_slots (k : Fin slotCount) : (d'.slots directory).get k =
    if position = k then ((d.slots directory).get position).rename name
    else (d.slots directory).get k := by
  rw [h.relists.slots_self hd, Directory.get_put]

theorem links_iff {id : UInt32} (hid : d.Reachable id) (k : Fin slotCount) (child : UInt32) :
    d'.Links id k child ↔ d.Links id k child := by
  by_cases hne : id = directory
  · subst hne
    rw [h.relists.links_self hd, Directory.get_put, links_iff_get h.relists.isDirectory]
    by_cases hk : position = k
    · subst hk
      rw [if_pos rfl, Slot.used_rename, Slot.inode_rename]
    · rw [if_neg hk]
  · exact h.relists.links_of_ne hd hid hne k child

theorem reachable_iff {id : UInt32} : d'.Reachable id ↔ d.Reachable id :=
  Disk.reachable_iff (h.links_iff hd)

theorem refers_iff {place : Place} {block : UInt32} :
    d'.Refers place block ↔ d.Refers place block := by
  cases place with
  | root => exact Iff.rfl
  | slot id k =>
    simp only [Refers, h.reachable_iff hd]
    exact and_congr_right fun hid => h.links_iff hd hid k block
  | pointer inode k =>
    simp only [Refers, h.reachable_iff hd]
    exact and_congr_right fun hid => by rw [h.relists.inode_eq hd hid]

theorem storedName_get (k : Fin slotCount) : ((d'.slots directory).get k).storedName =
    if position = k then name else ((d.slots directory).get k).storedName := by
  rw [h.get_slots hd]
  split
  · exact (Slot.storedName_of_toField rfl h.component.zero_not_mem).trans h.component.truncate_eq
  · rfl

theorem consistent : d'.Consistent diskSize where
  formed hid := by
    have hid' := (h.reachable_iff hd).mp hid
    exact h.relists.inode_eq hd hid' ▸ hd.formed hid'
  root_directory := h.relists.inode_eq hd reachable_root ▸ hd.root_directory
  root_slots := h.relists.inode_eq hd reachable_root ▸ hd.root_slots
  inside hplace := hd.inside ((h.refers_iff hd).mp hplace)
  distinct hplace hplace' :=
    hd.distinct ((h.refers_iff hd).mp hplace) ((h.refers_iff hd).mp hplace')
  named {id k child} hid hlink := by
    have hid' := (h.reachable_iff hd).mp hid
    have hlink' := (h.links_iff hd hid' k child).mp hlink
    by_cases hne : id = directory
    · subst hne
      rw [h.get_slots hd]
      split
      · exact ⟨name, h.component, rfl⟩
      · exact hd.named hid' hlink'
    · rw [h.relists.slots_of_ne hd hid' hlink'.directory hne]
      exact hd.named hid' hlink'
  unique {id k l child other} hid hlink hother hname := by
    have hid' := (h.reachable_iff hd).mp hid
    have hlink' := (h.links_iff hd hid' _ _).mp hlink
    have hother' := (h.links_iff hd hid' _ _).mp hother
    by_cases hne : id = directory
    · subst hne
      rw [h.storedName_get hd, h.storedName_get hd] at hname
      split at hname
      · rename_i hk
        split at hname
        · rename_i hl
          exact hk.symm.trans hl
        · exact absurd hname.symm (h.absent l hother'.used)
      · split at hname
        · exact absurd hname (h.absent k hlink'.used)
        · exact hd.unique hid' hlink' hother' hname
    · rw [h.relists.slots_of_ne hd hid' hlink'.directory hne] at hname
      exact hd.unique hid' hlink' hother' hname
  shallow hdepth := hd.shallow ((atDepth_iff (h.links_iff hd)).mp hdepth)

end Renames

/-! ### Releasing -/

/-- The second disk differs from the first in that a slot which leads to a leaf is free. -/
structure Releases (d d' : Disk) (directory : UInt32) (position : Fin slotCount) (child : UInt32) :
    Prop where
  relists : Relists d d' directory
    ((d.slots directory).put position ((d.slots directory).get position).release)
  link : d.Links directory position child
  leaf : ∀ k other, ¬ d.Links child k other

namespace Releases

variable {directory child : UInt32} {position : Fin slotCount}
  (h : Releases d d' directory position child) (hd : d.Consistent diskSize)

include h hd

theorem get_slots (k : Fin slotCount) : (d'.slots directory).get k =
    if position = k then ((d.slots directory).get position).release
    else (d.slots directory).get k := by
  rw [h.relists.slots_self hd, Directory.get_put]

theorem links_iff {id : UInt32} (hid : d.Reachable id) (k : Fin slotCount) (other : UInt32) :
    d'.Links id k other ↔ d.Links id k other ∧ ¬ (id = directory ∧ k = position) := by
  by_cases hne : id = directory
  · subst hne
    rw [h.relists.links_self hd, Directory.get_put, links_iff_get h.relists.isDirectory]
    by_cases hk : position = k
    · subst hk
      simp [Slot.used_release]
    · simp [hk, Ne.symm hk]
  · rw [h.relists.links_of_ne hd hid hne]
    simp [hne]

omit hd in
theorem child_reachable : d.Reachable child := h.relists.reachable.child h.link

theorem atDepth_iff {depth : Nat} {id : UInt32} :
    d'.AtDepth depth id ↔ d.AtDepth depth id ∧ id ≠ child := by
  constructor
  · intro hdepth
    induction hdepth with
    | root =>
      refine ⟨.root, ?_⟩
      rintro rfl
      exact hd.not_links_root h.relists.reachable h.link
    | child _ hlink ih =>
      obtain ⟨hlink', hpair⟩ := (h.links_iff hd ⟨_, ih.1⟩ _ _).mp hlink
      refine ⟨.child ih.1 hlink', ?_⟩
      rintro rfl
      exact hpair (hd.link_injective ⟨_, ih.1⟩ h.relists.reachable hlink' h.link)
  · rintro ⟨hdepth, hne⟩
    induction hdepth with
    | root => exact .root
    | @child depth parent other k hparent hlink ih =>
      -- The child that is released has no entries, so it is no parent on the way.
      have hparent_ne : parent ≠ child := by
        rintro rfl
        exact h.leaf _ _ hlink
      refine .child (ih hparent_ne) ((h.links_iff hd ⟨_, hparent⟩ _ _).mpr ⟨hlink, ?_⟩)
      rintro ⟨rfl, rfl⟩
      exact hne (hlink.functional h.link)

theorem reachable_iff {id : UInt32} : d'.Reachable id ↔ d.Reachable id ∧ id ≠ child := by
  simp only [Reachable, h.atDepth_iff hd, exists_and_right]

theorem refers_iff {place : Place} {block : UInt32} : d'.Refers place block ↔
    d.Refers place block ∧ place ≠ .slot directory position ∧ ∀ k, place ≠ .pointer child k := by
  cases place with
  | root => simp [Refers]
  | slot id k =>
    simp only [Refers, h.reachable_iff hd, ne_eq, Place.slot.injEq, reduceCtorEq, not_false_eq_true,
      implies_true, and_true]
    constructor
    · rintro ⟨⟨hid, -⟩, hlink⟩
      obtain ⟨hlink', hpair⟩ := (h.links_iff hd hid _ _).mp hlink
      exact ⟨⟨hid, hlink'⟩, hpair⟩
    · rintro ⟨⟨hid, hlink⟩, hpair⟩
      refine ⟨⟨hid, ?_⟩, (h.links_iff hd hid _ _).mpr ⟨hlink, hpair⟩⟩
      rintro rfl
      exact h.leaf _ _ hlink
  | pointer inode k =>
    simp only [Refers, h.reachable_iff hd, ne_eq, reduceCtorEq, not_false_eq_true, true_and,
      Place.pointer.injEq, not_and]
    constructor
    · rintro ⟨⟨hid, hne⟩, hpointer⟩
      rw [h.relists.inode_eq hd hid] at hpointer
      exact ⟨⟨hid, hpointer⟩, fun _ heq => absurd heq hne⟩
    · rintro ⟨⟨hid, hpointer⟩, hne⟩
      rw [h.relists.inode_eq hd hid]
      exact ⟨⟨hid, fun heq => hne k heq rfl⟩, hpointer⟩

theorem consistent : d'.Consistent diskSize where
  formed hid := by
    have hid' := ((h.reachable_iff hd).mp hid).1
    exact h.relists.inode_eq hd hid' ▸ hd.formed hid'
  root_directory := h.relists.inode_eq hd reachable_root ▸ hd.root_directory
  root_slots := h.relists.inode_eq hd reachable_root ▸ hd.root_slots
  inside hplace := hd.inside ((h.refers_iff hd).mp hplace).1
  distinct hplace hplace' :=
    hd.distinct ((h.refers_iff hd).mp hplace).1 ((h.refers_iff hd).mp hplace').1
  named {id k other} hid hlink := by
    have hid' := ((h.reachable_iff hd).mp hid).1
    obtain ⟨hlink', hpair⟩ := (h.links_iff hd hid' _ _).mp hlink
    by_cases hne : id = directory
    · subst hne
      rw [h.get_slots hd, if_neg fun hk => hpair ⟨rfl, hk.symm⟩]
      exact hd.named hid' hlink'
    · rw [h.relists.slots_of_ne hd hid' hlink'.directory hne]
      exact hd.named hid' hlink'
  unique {id k l other second} hid hlink hsecond hname := by
    have hid' := ((h.reachable_iff hd).mp hid).1
    obtain ⟨hlink', hpair⟩ := (h.links_iff hd hid' _ _).mp hlink
    obtain ⟨hsecond', hpair'⟩ := (h.links_iff hd hid' _ _).mp hsecond
    by_cases hne : id = directory
    · subst hne
      rw [h.get_slots hd, h.get_slots hd, if_neg fun hk => hpair ⟨rfl, hk.symm⟩,
        if_neg fun hl => hpair' ⟨rfl, hl.symm⟩] at hname
      exact hd.unique hid' hlink' hsecond' hname
    · rw [h.relists.slots_of_ne hd hid' hlink'.directory hne] at hname
      exact hd.unique hid' hlink' hsecond' hname
  shallow hdepth := hd.shallow ((h.atDepth_iff hd).mp hdepth).1

end Releases

end Disk

end BlockFS
