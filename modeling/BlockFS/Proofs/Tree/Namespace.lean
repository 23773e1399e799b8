import BlockFS.Proofs.Tree.Paths
import Mathlib.Logic.Function.Basic

/-!
The names of a file system as a tree of slot arrays: each directory is an array of slots that are
empty or hold a name and a child. Only the names and links of a disk show in it. Renaming, releasing
and filling a slot are updates of it, and a path leads in it where it leads on the disk.
-/

set_option autoImplicit false
set_option relaxedAutoImplicit false

namespace BlockFS

def Slot.listed (s : Slot) : Option (Name × UInt32) :=
  if s.used then some (s.storedName, s.inode) else none

/-- The slots of a directory, each empty or with a name and a child. -/
abbrev Slots := Fin slotCount → Option (Name × UInt32)

inductive Node where
  | file
  | directory (slots : Slots)

/-- The nodes of a tree by their numbers. -/
abbrev Namespace := UInt32 → Option Node

def Node.fresh : FileType → Node
  | .regular => .file
  | .directory => .directory fun _ => none

namespace Namespace

/-- Where a path leads: to a child, or to the reason why there is none. -/
inductive Walks (n : Namespace) : UInt32 → Path → Except Error UInt32 → Prop
  | here (id : UInt32) : Walks n id [] (.ok id)
  | enter {id child : UInt32} {slots : Slots} {k : Fin slotCount} {name : Name} {rest : Path}
      {result : Except Error UInt32} (hid : n id = some (.directory slots))
      (hslot : slots k = some (name, child)) (h : Walks n child rest result) :
      Walks n id (name :: rest) result
  | missing {id : UInt32} {slots : Slots} {name : Name} {rest : Path}
      (hid : n id = some (.directory slots)) (hslots : ∀ k child, slots k ≠ some (name, child)) :
      Walks n id (name :: rest) (.error .notFound)
  | blocked {id : UInt32} {name : Name} {rest : Path} (hid : n id = some .file) :
      Walks n id (name :: rest) (.error .notADirectory)

/-- The root is a directory, each other node stands in exactly one slot and is reached from the
root, and no name stands twice in a directory. -/
structure IsTree (n : Namespace) : Prop where
  root : ∃ slots, n rootId = some (.directory slots)
  child : ∀ {id slots k name child}, n id = some (.directory slots) →
    slots k = some (name, child) → child ≠ rootId ∧ n child ≠ none
  once : ∀ {id id' slots slots' k k' name name' child}, n id = some (.directory slots) →
    n id' = some (.directory slots') → slots k = some (name, child) →
      slots' k' = some (name', child) → id = id' ∧ k = k'
  named : ∀ {id slots k k' name child child'}, n id = some (.directory slots) →
    slots k = some (name, child) → slots k' = some (name, child') → k = k'
  reached : ∀ {id}, n id ≠ none → ∃ path, Walks n rootId path (.ok id)

end Namespace

namespace Disk

variable {d d' : Disk} {diskSize : UInt32}

def slotEntries (d : Disk) (id : UInt32) : Slots := fun k => ((d.slots id).get k).listed

def node (d : Disk) (id : UInt32) : Node :=
  if (d.inode id).isDirectory then .directory (d.slotEntries id) else .file

open Classical in
/-- The tree of names that is on a disk. -/
noncomputable def nodes (d : Disk) : Namespace := fun id =>
  if d.Reachable id then some (d.node id) else none

theorem nodes_of_reachable {id : UInt32} (h : d.Reachable id) : d.nodes id = some (d.node id) :=
  if_pos h

theorem nodes_of_not_reachable {id : UInt32} (h : ¬ d.Reachable id) : d.nodes id = none := if_neg h

theorem nodes_ne_none_iff {id : UInt32} : d.nodes id ≠ none ↔ d.Reachable id := by
  by_cases h : d.Reachable id
  · simp [nodes_of_reachable h, h]
  · simp [nodes_of_not_reachable h, h]

theorem nodes_eq_directory_iff {id : UInt32} {slots : Slots} :
    d.nodes id = some (.directory slots) ↔
      d.Reachable id ∧ (d.inode id).isDirectory = true ∧ d.slotEntries id = slots := by
  by_cases h : d.Reachable id
  · rw [nodes_of_reachable h, node]
    by_cases hdirectory : (d.inode id).isDirectory = true
    · simp [h, hdirectory]
    · simp [hdirectory]
  · simp [nodes_of_not_reachable h, h]

theorem nodes_eq_file_iff {id : UInt32} :
    d.nodes id = some .file ↔ d.Reachable id ∧ (d.inode id).isDirectory = false := by
  by_cases h : d.Reachable id
  · rw [nodes_of_reachable h, node]
    by_cases hdirectory : (d.inode id).isDirectory = true
    · simp [hdirectory]
    · simp [h, hdirectory]
  · simp [nodes_of_not_reachable h, h]

theorem slotEntries_eq_some_iff {id child : UInt32} {k : Fin slotCount} {name : Name} :
    d.slotEntries id k = some (name, child) ↔ ((d.slots id).get k).used = true ∧
      ((d.slots id).get k).storedName = name ∧ ((d.slots id).get k).inode = child := by
  rw [slotEntries, Slot.listed]
  by_cases hused : ((d.slots id).get k).used = true
  · simp [hused]
  · simp [hused]

theorem slotEntries_eq_none_iff {id : UInt32} {k : Fin slotCount} :
    d.slotEntries id k = none ↔ ((d.slots id).get k).used = false := by
  rw [slotEntries, Slot.listed]
  by_cases hused : ((d.slots id).get k).used = true
  · simp [hused]
  · simp [hused]

theorem links_of_slotEntries {id child : UInt32} {k : Fin slotCount} {name : Name}
    (hdirectory : (d.inode id).isDirectory = true)
    (h : d.slotEntries id k = some (name, child)) : d.Links id k child := by
  obtain ⟨hused, -, hinode⟩ := slotEntries_eq_some_iff.mp h
  exact ⟨hdirectory, hused, hinode⟩

theorem slotEntries_of_find_none {id : UInt32} {name : Name} (hname : Path.IsComponent name) :
    (d.slots id).find name = none ↔ ∀ k child, d.slotEntries id k ≠ some (name, child) := by
  rw [Directory.find_eq_none_iff, hname.canonical_eq]
  constructor
  · intro hnone k child hentry
    obtain ⟨hused, hstored, -⟩ := slotEntries_eq_some_iff.mp hentry
    exact hnone k hused hstored
  · intro hnone k hused hstored
    exact hnone k _ (slotEntries_eq_some_iff.mpr ⟨hused, hstored, rfl⟩)

namespace Consistent

variable (hd : d.Consistent diskSize)

include hd

theorem slotEntries_of_find {id : UInt32} {name : Name} {k : Fin slotCount} (hid : d.Reachable id)
    (hdirectory : (d.inode id).isDirectory = true) (hname : Path.IsComponent name) :
    (d.slots id).find name = some k ↔
      d.slotEntries id k = some (name, ((d.slots id).get k).inode) := by
  rw [hd.find_eq_some_iff hid hdirectory hname, slotEntries_eq_some_iff]
  simp only [and_true]

theorem walks_walk {id : UInt32} (hid : d.Reachable id) {path : Path}
    (hpath : ∀ name ∈ path, Path.IsComponent name) : d.nodes.Walks id path (d.walk id path) := by
  induction path generalizing id with
  | nil => exact .here id
  | cons name rest ih =>
    have hname := hpath name List.mem_cons_self
    by_cases hdirectory : (d.inode id).isDirectory = true
    · have hnode := nodes_eq_directory_iff.mpr ⟨hid, hdirectory, rfl⟩
      cases hfind : (d.slots id).find name with
      | none =>
        rw [walk, if_pos hdirectory, hfind]
        exact .missing hnode ((slotEntries_of_find_none hname).mp hfind)
      | some k =>
        rw [walk_cons_of_find hdirectory hfind]
        exact .enter hnode ((hd.slotEntries_of_find hid hdirectory hname).mp hfind)
          (ih (hid.child (links_of_find hdirectory hfind)) fun other hother =>
            hpath other (List.mem_cons_of_mem name hother))
    · rw [walk, if_neg hdirectory]
      exact .blocked (nodes_eq_file_iff.mpr ⟨hid, Bool.not_eq_true _ ▸ hdirectory⟩)

theorem walk_of_walks {id : UInt32} {path : Path} {result : Except Error UInt32}
    (h : d.nodes.Walks id path result) (hid : d.Reachable id)
    (hpath : ∀ name ∈ path, Path.IsComponent name) : d.walk id path = result := by
  induction h with
  | here => rfl
  | @enter id child slots k name rest result hnode hslot _ ih =>
    obtain ⟨-, hdirectory, rfl⟩ := nodes_eq_directory_iff.mp hnode
    have hlink := links_of_slotEntries hdirectory hslot
    have hfind : (d.slots id).find name = some k := by
      rw [hd.slotEntries_of_find hid hdirectory (hpath name List.mem_cons_self), hlink.inode]
      exact hslot
    rw [walk_cons_of_find hdirectory hfind, hlink.inode]
    exact ih (hid.child hlink) fun other hother => hpath other (List.mem_cons_of_mem name hother)
  | missing hnode hslots =>
    obtain ⟨-, hdirectory, rfl⟩ := nodes_eq_directory_iff.mp hnode
    have hname := hpath _ List.mem_cons_self
    rw [walk, if_pos hdirectory, (slotEntries_of_find_none hname).mpr hslots]
  | blocked hnode =>
    rw [walk, if_neg (by rw [(nodes_eq_file_iff.mp hnode).2]; decide)]

theorem walks_iff {id : UInt32} (hid : d.Reachable id) {path : Path}
    (hpath : ∀ name ∈ path, Path.IsComponent name) {result : Except Error UInt32} :
    d.nodes.Walks id path result ↔ d.walk id path = result := by
  constructor
  · intro h
    exact hd.walk_of_walks h hid hpath
  · rintro rfl
    exact hd.walks_walk hid hpath

theorem exists_path {depth : Nat} {id : UInt32} (hid : d.AtDepth depth id) :
    ∃ path, (∀ name ∈ path, Path.IsComponent name) ∧ d.walk rootId path = .ok id := by
  induction hid with
  | root => exact ⟨[], nofun, rfl⟩
  | @child depth parent child k hparent hlink ih =>
    obtain ⟨path, hpath, hwalk⟩ := ih
    refine ⟨path ++ [((d.slots parent).get k).storedName], ?_,
      walk_concat_eq_ok_iff.mpr ⟨parent, k, hwalk, hlink.directory,
        hd.find_of_slot ⟨_, hparent⟩ hlink rfl, hlink.inode⟩⟩
    intro name hname
    rcases List.mem_append.mp hname with hmem | hmem
    · exact hpath name hmem
    · rw [List.mem_singleton.mp hmem]
      exact hd.storedName_isComponent ⟨_, hparent⟩ hlink

/-- The names on a consistent disk form a tree. -/
theorem isTree : d.nodes.IsTree where
  root := ⟨_, nodes_eq_directory_iff.mpr ⟨reachable_root, hd.root_directory, rfl⟩⟩
  child hnode hslot := by
    obtain ⟨hid, hdirectory, rfl⟩ := nodes_eq_directory_iff.mp hnode
    have hlink := links_of_slotEntries hdirectory hslot
    refine ⟨?_, nodes_ne_none_iff.mpr (hid.child hlink)⟩
    rintro rfl
    exact hd.not_links_root hid hlink
  once hnode hnode' hslot hslot' := by
    obtain ⟨hid, hdirectory, rfl⟩ := nodes_eq_directory_iff.mp hnode
    obtain ⟨hid', hdirectory', rfl⟩ := nodes_eq_directory_iff.mp hnode'
    exact hd.link_injective hid hid' (links_of_slotEntries hdirectory hslot)
      (links_of_slotEntries hdirectory' hslot')
  named hnode hslot hslot' := by
    obtain ⟨hid, hdirectory, rfl⟩ := nodes_eq_directory_iff.mp hnode
    refine hd.unique hid (links_of_slotEntries hdirectory hslot)
      (links_of_slotEntries hdirectory hslot') ?_
    rw [(slotEntries_eq_some_iff.mp hslot).2.1, (slotEntries_eq_some_iff.mp hslot').2.1]
  reached hid := by
    obtain ⟨depth, hdepth⟩ := nodes_ne_none_iff.mp hid
    obtain ⟨path, hpath, hwalk⟩ := hd.exists_path hdepth
    exact ⟨path, (hd.walks_iff reachable_root hpath).mpr hwalk⟩

end Consistent

end Disk

end BlockFS
