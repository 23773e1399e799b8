import BlockFS.Proofs.Tree.Relist

/-!
Putting a new inode into the tree: a free slot of a directory is made to lead to an inode that the
tree did not refer to. The new inode has no entries, and at most one block of its own.
-/

set_option autoImplicit false
set_option relaxedAutoImplicit false

namespace BlockFS.Disk

variable {d d' : Disk} {diskSize : UInt32}

/-- The second disk differs from the first in that a free slot leads to a new inode. -/
structure Inserts (d d' : Disk) (diskSize directory : UInt32) (position : Fin slotCount)
    (name : Name) (child : UInt32) : Prop where
  relists : Relists d d' directory ((d.slots directory).put position (Slot.entry child name))
  unused : ((d.slots directory).get position).used = false
  component : Path.IsComponent name
  absent : ∀ k, ((d.slots directory).get k).used = true →
    ((d.slots directory).get k).storedName ≠ name
  depth : ∃ depth, d.AtDepth depth directory ∧ depth < maxPathDepth
  spare : d.Spare diskSize child
  formed : (d'.inode child).WellFormed
  leaf : ∀ k other, ¬ d'.Links child k other
  held_le : (d'.inode child).held ≤ 1
  pointers : ∀ k : Fin pointerCount, k.val < (d'.inode child).held →
    d.Spare diskSize ((d'.inode child).pointers.get k) ∧ (d'.inode child).pointers.get k ≠ child

namespace Inserts

variable {directory child : UInt32} {position : Fin slotCount} {name : Name}
  (h : Inserts d d' diskSize directory position name child) (hd : d.Consistent diskSize)

include h

theorem ne_child {id : UInt32} (hid : d.Reachable id) : id ≠ child := by
  rintro rfl
  exact h.spare.not_reachable hid

theorem position_ne {k : Fin slotCount} {other : UInt32} (hlink : d.Links directory k other) :
    position ≠ k := by
  rintro rfl
  exact Bool.false_ne_true (h.unused.symm.trans hlink.used)

include hd

theorem get_slots (k : Fin slotCount) : (d'.slots directory).get k =
    if position = k then Slot.entry child name else (d.slots directory).get k := by
  rw [h.relists.slots_self hd, Directory.get_put]

theorem links_iff {id : UInt32} (hid : d.Reachable id) (k : Fin slotCount) (other : UInt32) :
    d'.Links id k other ↔
      d.Links id k other ∨ (id = directory ∧ k = position ∧ other = child) := by
  by_cases hne : id = directory
  · subst hne
    rw [h.relists.links_self hd, Directory.get_put, links_iff_get h.relists.isDirectory]
    by_cases hk : position = k
    · subst hk
      simp [h.unused, Slot.entry, eq_comm]
    · simp [hk, Ne.symm hk]
  · rw [h.relists.links_of_ne hd hid hne]
    simp [hne]

theorem link : d'.Links directory position child :=
  (h.links_iff hd h.relists.reachable _ _).mpr (.inr ⟨rfl, rfl, rfl⟩)

theorem atDepth_of {depth : Nat} {id : UInt32} (hdepth : d.AtDepth depth id) :
    d'.AtDepth depth id := by
  induction hdepth with
  | root => exact .root
  | child hparent hlink ih => exact .child ih ((h.links_iff hd ⟨_, hparent⟩ _ _).mpr (.inl hlink))

theorem atDepth_iff {depth : Nat} {id : UInt32} : d'.AtDepth depth id ↔
    d.AtDepth depth id ∨ (id = child ∧ ∃ above, depth = above + 1 ∧ d.AtDepth above directory) := by
  constructor
  · intro hdepth
    induction hdepth with
    | root => exact .inl .root
    | child _ hlink ih =>
      rcases ih with hparent | ⟨rfl, -⟩
      · rcases (h.links_iff hd ⟨_, hparent⟩ _ _).mp hlink with hlink' | ⟨rfl, rfl, rfl⟩
        · exact .inl (.child hparent hlink')
        · exact .inr ⟨rfl, _, rfl, hparent⟩
      · exact absurd hlink (h.leaf _ _)
  · rintro (hdepth | ⟨rfl, above, rfl, hparent⟩)
    · exact h.atDepth_of hd hdepth
    · exact .child (h.atDepth_of hd hparent) (h.link hd)

theorem reachable_iff {id : UInt32} : d'.Reachable id ↔ d.Reachable id ∨ id = child := by
  constructor
  · rintro ⟨depth, hdepth⟩
    rcases (h.atDepth_iff hd).mp hdepth with hold | ⟨rfl, -⟩
    · exact .inl ⟨depth, hold⟩
    · exact .inr rfl
  · rintro (⟨depth, hdepth⟩ | rfl)
    · exact ⟨depth, h.atDepth_of hd hdepth⟩
    · obtain ⟨depth, hdepth, -⟩ := h.depth
      exact ⟨depth + 1, .child (h.atDepth_of hd hdepth) (h.link hd)⟩

theorem child_reachable : d'.Reachable child := (h.reachable_iff hd).mpr (.inr rfl)

theorem refers_iff {place : Place} {block : UInt32} : d'.Refers place block ↔
    d.Refers place block ∨ (place = .slot directory position ∧ block = child) ∨
      ∃ k, place = .pointer child k ∧ k.val < (d'.inode child).held ∧
        (d'.inode child).pointers.get k = block := by
  cases place with
  | root => simp [Refers]
  | slot id k =>
    simp only [Refers, h.reachable_iff hd, Place.slot.injEq, reduceCtorEq, false_and, exists_false,
      or_false]
    constructor
    · rintro ⟨hid | rfl, hlink⟩
      · rcases (h.links_iff hd hid _ _).mp hlink with hlink' | ⟨rfl, rfl, rfl⟩
        · exact .inl ⟨hid, hlink'⟩
        · exact .inr ⟨⟨rfl, rfl⟩, rfl⟩
      · exact absurd hlink (h.leaf _ _)
    · rintro (⟨hid, hlink⟩ | ⟨⟨rfl, rfl⟩, rfl⟩)
      · exact ⟨.inl hid, (h.links_iff hd hid _ _).mpr (.inl hlink)⟩
      · exact ⟨.inl h.relists.reachable, h.link hd⟩
  | pointer inode k =>
    simp only [Refers, h.reachable_iff hd, reduceCtorEq, false_and, false_or, Place.pointer.injEq]
    constructor
    · rintro ⟨hinode | rfl, hk, hpointer⟩
      · rw [h.relists.inode_eq hd hinode] at hk hpointer
        exact .inl ⟨hinode, hk, hpointer⟩
      · exact .inr ⟨k, ⟨rfl, rfl⟩, hk, hpointer⟩
    · rintro (⟨hinode, hk, hpointer⟩ | ⟨l, ⟨rfl, rfl⟩, hl, hpointer⟩)
      · rw [← h.relists.inode_eq hd hinode] at hk hpointer
        exact ⟨.inl hinode, hk, hpointer⟩
      · exact ⟨.inr rfl, hl, hpointer⟩

theorem storedName_get (k : Fin slotCount) : ((d'.slots directory).get k).storedName =
    if position = k then name else ((d.slots directory).get k).storedName := by
  rw [h.get_slots hd]
  split
  · exact (Slot.storedName_of_toField rfl h.component.zero_not_mem).trans h.component.truncate_eq
  · rfl

private theorem inserts_distinct {place place' : Place} {block : UInt32}
    (hplace : d'.Refers place block) (hplace' : d'.Refers place' block) : place = place' := by
  rcases (h.refers_iff hd).mp hplace with hold | ⟨rfl, rfl⟩ | ⟨k, rfl, hk, rfl⟩
  · rcases (h.refers_iff hd).mp hplace' with hold' | ⟨rfl, rfl⟩ | ⟨l, rfl, hl, rfl⟩
    · exact hd.distinct hold hold'
    · exact absurd hold (h.spare.unreferred _)
    · exact absurd hold ((h.pointers l hl).1.unreferred _)
  · rcases (h.refers_iff hd).mp hplace' with hold' | ⟨rfl, -⟩ | ⟨l, rfl, hl, heq⟩
    · exact absurd hold' (h.spare.unreferred _)
    · rfl
    · exact absurd heq (h.pointers l hl).2
  · rcases (h.refers_iff hd).mp hplace' with hold' | ⟨rfl, heq⟩ | ⟨l, rfl, hl, -⟩
    · exact absurd hold' ((h.pointers k hk).1.unreferred _)
    · exact absurd heq (h.pointers k hk).2
    · -- The new inode holds one block at most, so two of its pointers are the same one.
      have hone := h.held_le
      have hkl : k = l := Fin.ext (by omega)
      rw [hkl]

private theorem inserts_named {k : Fin slotCount} {other : UInt32}
    (hlink : d'.Links directory k other) :
    ∃ label, Path.IsComponent label ∧ ((d'.slots directory).get k).name = label.toField := by
  rw [h.get_slots hd]
  rcases (h.links_iff hd h.relists.reachable _ _).mp hlink with hold | ⟨-, rfl, -⟩
  · rw [if_neg (h.position_ne hold)]
    exact hd.named h.relists.reachable hold
  · rw [if_pos rfl]
    exact ⟨name, h.component, rfl⟩

private theorem inserts_unique {k l : Fin slotCount} {other second : UInt32}
    (hlink : d'.Links directory k other) (hsecond : d'.Links directory l second)
    (hname : ((d'.slots directory).get k).storedName = ((d'.slots directory).get l).storedName) :
    k = l := by
  have hdirectory := h.relists.reachable
  rw [h.storedName_get hd, h.storedName_get hd] at hname
  rcases (h.links_iff hd hdirectory _ _).mp hlink with hold | ⟨-, rfl, -⟩
  · rcases (h.links_iff hd hdirectory _ _).mp hsecond with hold' | ⟨-, rfl, -⟩
    · rw [if_neg (h.position_ne hold), if_neg (h.position_ne hold')] at hname
      exact hd.unique hdirectory hold hold' hname
    · rw [if_neg (h.position_ne hold), if_pos rfl] at hname
      exact absurd hname (h.absent k hold.used)
  · rcases (h.links_iff hd hdirectory _ _).mp hsecond with hold' | ⟨-, rfl, -⟩
    · rw [if_pos rfl, if_neg (h.position_ne hold')] at hname
      exact absurd hname.symm (h.absent l hold'.used)
    · rfl

theorem consistent : d'.Consistent diskSize where
  formed {id} hid := by
    rcases (h.reachable_iff hd).mp hid with hold | rfl
    · exact h.relists.inode_eq hd hold ▸ hd.formed hold
    · exact h.formed
  root_directory := h.relists.inode_eq hd reachable_root ▸ hd.root_directory
  root_slots := h.relists.inode_eq hd reachable_root ▸ hd.root_slots
  inside {place block} hplace hroot hslots := by
    rcases (h.refers_iff hd).mp hplace with hold | ⟨-, rfl⟩ | ⟨k, -, hk, rfl⟩
    · exact hd.inside hold hroot hslots
    · exact ⟨h.spare.low, h.spare.high⟩
    · exact ⟨(h.pointers k hk).1.low, (h.pointers k hk).1.high⟩
  distinct hplace hplace' := h.inserts_distinct hd hplace hplace'
  named {id k other} hid hlink := by
    rcases (h.reachable_iff hd).mp hid with hold | rfl
    · by_cases hne : id = directory
      · subst hne
        exact h.inserts_named hd hlink
      · have hlink' := (h.relists.links_of_ne hd hold hne _ _).mp hlink
        rw [h.relists.slots_of_ne hd hold hlink'.directory hne]
        exact hd.named hold hlink'
    · exact absurd hlink (h.leaf _ _)
  unique {id k l other second} hid hlink hsecond hname := by
    rcases (h.reachable_iff hd).mp hid with hold | rfl
    · by_cases hne : id = directory
      · subst hne
        exact h.inserts_unique hd hlink hsecond hname
      · have hlink' := (h.relists.links_of_ne hd hold hne _ _).mp hlink
        have hsecond' := (h.relists.links_of_ne hd hold hne _ _).mp hsecond
        rw [h.relists.slots_of_ne hd hold hlink'.directory hne] at hname
        exact hd.unique hold hlink' hsecond' hname
    · exact absurd hlink (h.leaf _ _)
  shallow hdepth := by
    rcases (h.atDepth_iff hd).mp hdepth with hold | ⟨-, above, rfl, hparent⟩
    · exact hd.shallow hold
    · obtain ⟨depth, hdirectory, hlt⟩ := h.depth
      rw [hd.depth_unique hparent hdirectory]
      exact hlt

end Inserts

end BlockFS.Disk
