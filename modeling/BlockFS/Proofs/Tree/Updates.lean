import BlockFS.Proofs.Tree.Namespace

/-!
Changes of a disk as updates of its tree of names: one slot of one directory is given another name,
is emptied, or is filled, and all other slots of all directories stay as they are.
-/

set_option autoImplicit false
set_option relaxedAutoImplicit false

namespace BlockFS.Disk

variable {d d' : Disk} {diskSize : UInt32}

theorem SameEntries.nodes_eq (h : SameEntries d d') : d'.nodes = d.nodes := by
  funext id
  by_cases hid : d.Reachable id
  · rw [nodes_of_reachable hid, nodes_of_reachable (h.reachable_iff.mpr hid), node, node,
      h.isDirectory hid]
    by_cases hdirectory : (d.inode id).isDirectory = true
    · rw [if_pos hdirectory, if_pos hdirectory]
      refine congrArg (some ∘ Node.directory) (funext fun k => ?_)
      rw [slotEntries, slotEntries, h.slots hid hdirectory]
    · rw [if_neg hdirectory, if_neg hdirectory]
  · rw [nodes_of_not_reachable hid, nodes_of_not_reachable (mt h.reachable_iff.mp hid)]

namespace Relists

variable {directory : UInt32} {slots : Directory} (h : Relists d d' directory slots)
  (hd : d.Consistent diskSize)

include h hd

theorem node_of_ne {id : UInt32} (hid : d.Reachable id) (hne : id ≠ directory) :
    d'.node id = d.node id := by
  rw [node, node, h.inode_eq hd hid]
  by_cases hdirectory : (d.inode id).isDirectory = true
  · rw [if_pos hdirectory, if_pos hdirectory]
    refine congrArg Node.directory (funext fun k => ?_)
    rw [slotEntries, slotEntries, h.slots_of_ne hd hid hdirectory hne]
  · rw [if_neg hdirectory, if_neg hdirectory]

theorem node_self {k : Fin slotCount} {slot : Slot}
    (hslots : slots = (d.slots directory).put k slot) :
    d'.node directory = .directory (Function.update (d.slotEntries directory) k slot.listed) := by
  rw [node, h.inode_eq hd h.reachable, if_pos h.isDirectory]
  refine congrArg Node.directory (funext fun j => ?_)
  rw [slotEntries, h.slots_self hd, hslots, Directory.get_put, Function.update_apply]
  by_cases hj : k = j
  · rw [if_pos hj, if_pos hj.symm]
  · rw [if_neg hj, if_neg (Ne.symm hj), slotEntries]

end Relists

theorem Renames.nodes_eq {directory : UInt32} {k : Fin slotCount} {name : Name}
    (h : Renames d d' directory k name) (hd : d.Consistent diskSize) :
    d'.nodes = Function.update d.nodes directory (some (.directory
      (Function.update (d.slotEntries directory) k
        (some (name, ((d.slots directory).get k).inode))))) := by
  have hentry : (((d.slots directory).get k).rename name).listed =
      some (name, ((d.slots directory).get k).inode) := by
    rw [Slot.listed, Slot.used_rename, if_pos h.used, Slot.inode_rename,
      Slot.storedName_of_toField rfl h.component.zero_not_mem, h.component.truncate_eq]
  funext id
  rw [Function.update_apply]
  by_cases hid : d.Reachable id
  · have hid' := (h.reachable_iff hd).mpr hid
    rw [nodes_of_reachable hid']
    split
    · rename_i heq
      rw [heq, h.relists.node_self hd rfl, hentry]
    · rw [h.relists.node_of_ne hd hid ‹_›, nodes_of_reachable hid]
  · rw [nodes_of_not_reachable (mt (h.reachable_iff hd).mp hid), nodes_of_not_reachable hid,
      if_neg]
    rintro rfl
    exact hid h.relists.reachable

theorem Releases.nodes_eq {directory child : UInt32} {k : Fin slotCount}
    (h : Releases d d' directory k child) (hd : d.Consistent diskSize) :
    d'.nodes = Function.update (Function.update d.nodes child none) directory
      (some (.directory (Function.update (d.slotEntries directory) k none))) := by
  have hentry : ((d.slots directory).get k).release.listed = none := by
    rw [Slot.listed, Slot.used_release]
    rfl
  have hne : directory ≠ child := by
    rintro rfl
    exact h.leaf k directory h.link
  funext id
  rw [Function.update_apply, Function.update_apply]
  by_cases hid : d'.Reachable id
  · obtain ⟨hold, hchild⟩ := (h.reachable_iff hd).mp hid
    rw [nodes_of_reachable hid, if_neg hchild]
    split
    · rename_i heq
      rw [heq, h.relists.node_self hd rfl, hentry]
    · rw [h.relists.node_of_ne hd hold ‹_›, nodes_of_reachable hold]
  · rw [nodes_of_not_reachable hid, if_neg]
    · split
      · rfl
      · exact (nodes_of_not_reachable fun hold => hid ((h.reachable_iff hd).mpr ⟨hold, ‹_›⟩)).symm
    · rintro rfl
      exact hid ((h.reachable_iff hd).mpr ⟨h.relists.reachable, hne⟩)

theorem listed_entry {child : UInt32} {name : Name} (h : Path.IsComponent name) :
    (Slot.entry child name).listed = some (name, child) := by
  have hstored := Slot.storedName_of_toField (s := Slot.entry child name) rfl h.zero_not_mem
  rw [Slot.listed, hstored, h.truncate_eq]
  rfl

theorem Inserts.nodes_eq {directory child : UInt32} {k : Fin slotCount} {name : Name}
    (h : Inserts d d' diskSize directory k name child) (hd : d.Consistent diskSize) :
    d'.nodes = Function.update (Function.update d.nodes child (some (d'.node child))) directory
      (some (.directory (Function.update (d.slotEntries directory) k (some (name, child))))) := by
  have hentry : (Slot.entry child name).listed = some (name, child) := listed_entry h.component
  funext id
  rw [Function.update_apply, Function.update_apply]
  by_cases hid : d'.Reachable id
  · rw [nodes_of_reachable hid]
    split
    · rename_i heq
      rw [heq, h.relists.node_self hd rfl, hentry]
    · rcases (h.reachable_iff hd).mp hid with hold | rfl
      · rw [h.relists.node_of_ne hd hold ‹_›, if_neg (h.ne_child hold), nodes_of_reachable hold]
      · rw [if_pos rfl]
  · have hold : ¬ d.Reachable id := fun hold => hid ((h.reachable_iff hd).mpr (.inl hold))
    rw [nodes_of_not_reachable hid, if_neg, if_neg, nodes_of_not_reachable hold]
    · rintro rfl
      exact hid (h.child_reachable hd)
    · rintro rfl
      exact hold h.relists.reachable

end BlockFS.Disk
