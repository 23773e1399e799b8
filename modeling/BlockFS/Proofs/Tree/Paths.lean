import BlockFS.Proofs.Tree.Insert
import Mathlib.Data.List.Induction

/-!
Paths after a change of the slots of one directory. Up to that directory they lead where they did,
and so they do from any place that is farther from the root than it. When a single slot changes, a
path leads elsewhere only if it goes through that slot. No two paths lead to the same inode.
-/

set_option autoImplicit false
set_option relaxedAutoImplicit false

namespace BlockFS.Disk

variable {d d' : Disk} {diskSize : UInt32}

theorem SameEntries.walk_eq (h : SameEntries d d') {id : UInt32} (hid : d.Reachable id)
    (path : Path) : d'.walk id path = d.walk id path := by
  induction path generalizing id with
  | nil => rfl
  | cons name rest ih =>
    rw [walk, walk, h.isDirectory hid]
    by_cases hdirectory : (d.inode id).isDirectory = true
    · rw [if_pos hdirectory, if_pos hdirectory, h.slots hid hdirectory]
      cases hfind : (d.slots id).find name with
      | none => rfl
      | some k => exact ih (hid.child (links_of_find hdirectory hfind))
    · rw [if_neg hdirectory, if_neg hdirectory]

theorem Entry.storedName {path : Path} {name : Name} {parent child : UInt32} {k : Fin slotCount}
    (h : d.Entry path name parent k child) (hd : d.Consistent diskSize)
    (hname : Path.IsComponent name) : ((d.slots parent).get k).storedName = name :=
  ((hd.find_eq_some_iff h.reachable h.directory hname).mp h.find).2

theorem Entry.child_ne_root {path : Path} {name : Name} {parent child : UInt32} {k : Fin slotCount}
    (h : d.Entry path name parent k child) (hd : d.Consistent diskSize) : child ≠ rootId := by
  rintro rfl
  exact hd.not_links_root h.reachable h.links

theorem Entry.name_eq {path : Path} {name : Name} {parent child : UInt32} {k : Fin slotCount}
    (h : d.Entry path name parent k child) (hd : d.Consistent diskSize)
    (hname : Path.IsComponent name) : ((d.slots parent).get k).name = name.toField := by
  obtain ⟨stored, hcomponent, hfield⟩ := hd.named h.reachable h.links
  have hstored := Slot.storedName_of_toField hfield hcomponent.zero_not_mem
  rw [h.storedName hd hname, hcomponent.truncate_eq] at hstored
  rw [hfield, hstored]

/-- At most one path leads to an inode. -/
theorem Consistent.walk_injective (hd : d.Consistent diskSize) {path other : Path} {id : UInt32}
    (hpath : ∀ name ∈ path, Path.IsComponent name)
    (hother : ∀ name ∈ other, Path.IsComponent name) (hwalk : d.walk rootId path = .ok id)
    (hwalk' : d.walk rootId other = .ok id) : path = other := by
  induction path using List.reverseRecOn generalizing other id with
  | nil =>
    obtain rfl : rootId = id := Except.ok.inj hwalk
    cases other using List.reverseRecOn with
    | nil => rfl
    | append_singleton rest name =>
      obtain ⟨parent, k, hentry⟩ := walk_concat_eq_ok_iff.mp hwalk'
      exact absurd rfl (hentry.child_ne_root hd)
  | append_singleton above last ih =>
    obtain ⟨parent, k, hentry⟩ := walk_concat_eq_ok_iff.mp hwalk
    cases other using List.reverseRecOn with
    | nil => exact absurd (Except.ok.inj hwalk').symm (hentry.child_ne_root hd)
    | append_singleton rest name =>
      obtain ⟨parent', k', hentry'⟩ := walk_concat_eq_ok_iff.mp hwalk'
      obtain ⟨rfl, rfl⟩ :=
        hd.link_injective hentry.reachable hentry'.reachable hentry.links hentry'.links
      have hlast := hentry.storedName hd (hpath last (by simp))
      have hname := hentry'.storedName hd (hother name (by simp))
      rw [ih (fun n hn => hpath n (List.mem_append_left _ hn))
        (fun n hn => hother n (List.mem_append_left _ hn)) hentry.walk hentry'.walk,
        ← hlast, ← hname]

/-- The inodes of the first tree are of the same type on the second disk, and directories among
them, but for one, have the same slots. -/
structure SameElsewhere (d d' : Disk) (directory : UInt32) : Prop where
  isDirectory : ∀ {id}, d.Reachable id → (d'.inode id).isDirectory = (d.inode id).isDirectory
  slots : ∀ {id}, d.Reachable id → (d.inode id).isDirectory = true → id ≠ directory →
    d'.slots id = d.slots id

theorem Relists.sameElsewhere {directory : UInt32} {slots : Directory}
    (h : Relists d d' directory slots) (hd : d.Consistent diskSize) :
    SameElsewhere d d' directory where
  isDirectory hid := by rw [h.inode_eq hd hid]
  slots hid hdirectory hne := h.slots_of_ne hd hid hdirectory hne

namespace SameElsewhere

variable {directory : UInt32} (h : SameElsewhere d d' directory) (hd : d.Consistent diskSize)

include h hd

theorem walk_to {depth : Nat} {id : UInt32} (hid : d.AtDepth depth id) {path : Path}
    (hwalk : d.walk id path = .ok directory) : d'.walk id path = .ok directory := by
  induction path generalizing depth id with
  | nil => exact hwalk
  | cons name rest ih =>
    have hne : id ≠ directory := by
      rintro rfl
      have hdepth := hd.depth_unique hid (walk_atDepth hid hwalk)
      rw [List.length_cons] at hdepth
      omega
    rw [walk] at hwalk ⊢
    by_cases hdirectory : (d.inode id).isDirectory = true
    · rw [if_pos hdirectory] at hwalk
      rw [h.isDirectory ⟨_, hid⟩, if_pos hdirectory, h.slots ⟨_, hid⟩ hdirectory hne]
      cases hfind : (d.slots id).find name with
      | none =>
        rw [hfind] at hwalk
        cases hwalk
      | some k =>
        rw [hfind] at hwalk
        exact ih (.child hid (links_of_find hdirectory hfind)) hwalk
    · rw [if_neg hdirectory] at hwalk
      cases hwalk

theorem walk_below {above depth : Nat} {id : UInt32} (habove : d.AtDepth above directory)
    (hid : d.AtDepth depth id) (hlt : above < depth) (path : Path) :
    d'.walk id path = d.walk id path := by
  induction path generalizing depth id with
  | nil => rfl
  | cons name rest ih =>
    have hne : id ≠ directory := by
      rintro rfl
      have hdepth := hd.depth_unique hid habove
      omega
    rw [walk, walk, h.isDirectory ⟨_, hid⟩]
    by_cases hdirectory : (d.inode id).isDirectory = true
    · rw [if_pos hdirectory, if_pos hdirectory, h.slots ⟨_, hid⟩ hdirectory hne]
      cases hfind : (d.slots id).find name with
      | none => rfl
      | some k => exact ih (.child hid (links_of_find hdirectory hfind)) (Nat.lt_succ_of_lt hlt)
    · rw [if_neg hdirectory, if_neg hdirectory]

end SameElsewhere

/-- When one slot of a directory is replaced, a path that goes neither through the old slot nor
through the new one leads where it did. -/
theorem Relists.walk_avoiding {directory id : UInt32} {above way rest : Path} {k : Fin slotCount}
    {slot : Slot} (h : Relists d d' directory ((d.slots directory).put k slot))
    (hd : d.Consistent diskSize) (habove : d.walk rootId above = .ok directory)
    (hnames : ∀ name ∈ above, Path.IsComponent name) (hway : d.walk rootId way = .ok id)
    (hcomponents : ∀ name ∈ way ++ rest, Path.IsComponent name)
    (hold : ((d.slots directory).get k).used = true →
      ¬ above ++ [((d.slots directory).get k).storedName] <+: way ++ rest)
    (hnew : slot.used = true → ¬ above ++ [slot.storedName] <+: way ++ rest) :
    d'.walk id rest = d.walk id rest := by
  -- The way taken so far grows by one name in each step.
  induction rest generalizing way id with
  | nil => rfl
  | cons name rest ih =>
    have hid := walk_reachable reachable_root hway
    have hsame := h.sameElsewhere hd
    have hname := hcomponents name (by simp)
    have hstep : way ++ name :: rest = (way ++ [name]) ++ rest := by simp
    rw [walk, walk, hsame.isDirectory hid]
    by_cases hdirectory : (d.inode id).isDirectory = true
    · rw [if_pos hdirectory, if_pos hdirectory]
      have hnext : ∀ j, (d.slots id).find name = some j →
          d'.walk ((d.slots id).get j).inode rest = d.walk ((d.slots id).get j).inode rest := by
        intro j hj
        rw [hstep] at hcomponents hold hnew
        exact ih (walk_concat_eq_ok_iff.mpr ⟨id, j, hway, hdirectory, hj, rfl⟩) hcomponents hold
          hnew
      by_cases heq : id = directory
      · subst heq
        have hsplit : way = above := hd.walk_injective
          (fun n hn => hcomponents n (List.mem_append_left _ hn)) hnames hway habove
        have hprefix : above ++ [name.canonical] <+: way ++ name :: rest := by
          rw [hname.canonical_eq, hsplit]
          exact ⟨rest, by simp⟩
        have hold' : ¬ (((d.slots id).get k).used = true ∧
            ((d.slots id).get k).storedName = name.canonical) :=
          fun hslot => hold hslot.1 (hslot.2 ▸ hprefix)
        have hnew' : ¬ (slot.used = true ∧ slot.storedName = name.canonical) :=
          fun hslot => hnew hslot.1 (hslot.2 ▸ hprefix)
        rw [h.slots_self hd, Directory.find_put_of_ne hold' hnew']
        cases hfind : (d.slots id).find name with
        | none => rfl
        | some j =>
          simp only [Directory.get_put_of_find hold' hfind]
          exact hnext j hfind
      · rw [hsame.slots hid hdirectory heq]
        cases hfind : (d.slots id).find name with
        | none => rfl
        | some j => exact hnext j hfind
    · rw [if_neg hdirectory, if_neg hdirectory]

theorem Consistent.find_of_slot (hd : d.Consistent diskSize) {id child : UInt32}
    {k : Fin slotCount} {name : Name} (hid : d.Reachable id) (hlink : d.Links id k child)
    (hname : ((d.slots id).get k).storedName = name) : (d.slots id).find name = some k := by
  have hcomponent := hd.storedName_isComponent hid hlink
  rw [hname] at hcomponent
  exact (hd.find_eq_some_iff hid hlink.directory hcomponent).mpr ⟨hlink.used, hname⟩

section

variable {path : Path} {parent child : UInt32} {oldName newName : Name} {k : Fin slotCount}

theorem Renames.entry (h : Renames d d' parent k newName) (hd : d.Consistent diskSize)
    (hentry : d.Entry path oldName parent k child) : d'.Entry path newName parent k child := by
  have hlink := (h.links_iff hd hentry.reachable k child).mpr hentry.links
  refine ⟨(h.relists.sameElsewhere hd).walk_to hd .root hentry.walk, hlink.directory, ?_,
    hlink.inode⟩
  exact (h.consistent hd).find_of_slot ((h.reachable_iff hd).mpr hentry.reachable) hlink
    (by rw [h.storedName_get hd, if_pos rfl])

theorem Renames.find_new (h : Renames d d' parent k newName) :
    (d.slots parent).find newName = none := by
  apply Directory.find_eq_none_iff.mpr
  rw [h.component.canonical_eq]
  exact h.absent

theorem Renames.find_old (h : Renames d d' parent k newName) (hd : d.Consistent diskSize)
    (hentry : d.Entry path oldName parent k child) (hname : Path.IsComponent oldName) :
    (d'.slots parent).find oldName = none := by
  obtain ⟨hused, hstored⟩ :=
    (hd.find_eq_some_iff hentry.reachable hentry.directory hname).mp hentry.find
  apply Directory.find_eq_none_iff.mpr
  intro l hl
  rw [h.storedName_get hd, hname.canonical_eq]
  by_cases hkl : k = l
  · rw [if_pos hkl, ← hstored]
    exact (h.absent k hused).symm
  · rw [if_neg hkl]
    intro heq
    rw [h.get_slots hd, if_neg hkl] at hl
    refine hkl (hd.unique hentry.reachable hentry.links ⟨hentry.directory, hl, rfl⟩ ?_)
    rw [hstored, heq]

theorem Renames.walk_new (h : Renames d d' parent k newName) (hd : d.Consistent diskSize)
    (hentry : d.Entry path oldName parent k child) (rest : Path) :
    d'.walk rootId (path ++ newName :: rest) = d.walk rootId (path ++ oldName :: rest) := by
  have hentry' := h.entry hd hentry
  have hparent := walk_atDepth .root hentry.walk
  rw [walk_append, walk_append, hentry'.walk, hentry.walk]
  show d'.walk parent (newName :: rest) = d.walk parent (oldName :: rest)
  rw [walk_cons_of_find hentry'.directory hentry'.find,
    walk_cons_of_find hentry.directory hentry.find, hentry'.inode, hentry.inode]
  exact (h.relists.sameElsewhere hd).walk_below hd hparent (.child hparent hentry.links)
    (Nat.lt_succ_self _) rest

theorem Renames.walk_old (h : Renames d d' parent k newName) (hd : d.Consistent diskSize)
    (hentry : d.Entry path oldName parent k child) (hname : Path.IsComponent oldName)
    (rest : Path) : d'.walk rootId (path ++ oldName :: rest) = .error .notFound := by
  have hentry' := h.entry hd hentry
  exact walk_of_find_none hentry'.walk hentry'.directory (h.find_old hd hentry hname) rest

theorem Relists.walk_new (h : Relists d d' parent ((d.slots parent).put k
      (Slot.entry child newName))) (hd : d.Consistent diskSize)
    (hname : Path.IsComponent newName) (hfind : (d.slots parent).find newName = none)
    (hwalk : d.walk rootId path = .ok parent) :
    d'.walk rootId (path ++ [newName]) = .ok child := by
  have hsame := h.sameElsewhere hd
  have hstored : (Slot.entry child newName).storedName = newName.canonical := by
    rw [Slot.storedName_of_toField rfl hname.zero_not_mem, hname.truncate_eq, hname.canonical_eq]
  have hslots := h.slots_self hd
  refine walk_concat_eq_ok_iff.mpr ⟨parent, k, hsame.walk_to hd .root hwalk, ?_, ?_, ?_⟩
  · rw [hsame.isDirectory h.reachable]
    exact h.isDirectory
  · rw [hslots]
    exact Directory.find_put_self hfind k rfl hstored
  · rw [hslots, Directory.get_put, if_pos rfl]
    rfl

end

end BlockFS.Disk
