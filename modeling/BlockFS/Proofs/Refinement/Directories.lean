import BlockFS.Proofs.Refinement.Files
import BlockFS.Proofs.Refinement.Isolation

/-!
What a directory lists is what can be looked up in it. Stored names are whole texts, so a listing
shows them as they are; they are distinct, and a name behind the path of a directory leads to a file
just when it is listed. No entry lies so deep that its path would be too long.
-/

set_option autoImplicit false
set_option relaxedAutoImplicit false

namespace BlockFS

namespace Slots

variable {slots : Slots}

theorem nodup_names (h : ∀ {k l name child other}, slots k = some (name, child) →
    slots l = some (name, other) → k = l) : (slots.entries.map Prod.fst).Nodup := by
  rw [entries, List.map_filterMap, List.Nodup, List.pairwise_filterMap, List.pairwise_iff_getElem]
  rintro k l _ _ hlt name hname _ hother rfl
  rw [List.getElem_ofFn] at hname hother
  obtain ⟨⟨_, child⟩, hk, rfl⟩ := Option.map_eq_some_iff.mp hname
  obtain ⟨⟨_, other⟩, hl, heq⟩ := Option.map_eq_some_iff.mp hother
  cases heq
  exact Nat.ne_of_lt hlt (congrArg Fin.val (h hk hl))

end Slots

namespace FileSystem

/-- What a listing of the directory of the given number shows agrees with looking up its names. -/
structure Agrees (fs : FileSystem) (text : String) (id : UInt32)
    (listing : List (String × Attributes)) : Prop where
  /-- The bytes of the names are the stored ones. -/
  stored : (listing.map fun entry => Utf8.encode entry.1.toList) =
    (fs.content.disk.slots id).entries.map Slot.storedName
  distinct : (listing.map Prod.fst).Nodup
  named : ∀ entry ∈ listing, entry.1 ≠ "" ∧ '/' ∉ entry.1.toList ∧ '\x00' ∉ entry.1.toList ∧
    (Utf8.encode entry.1.toList).length ≤ maxNameLength
  lookup : ∀ now, ∀ entry ∈ listing,
    fs.outcome now (.lookup (text ++ "/" ++ entry.1)) = .ok (.inode entry.2.inode)
  attributes : ∀ now, ∀ entry ∈ listing,
    fs.outcome now (.attributes (text ++ "/" ++ entry.1)) = .ok (.attributes entry.2)
  /-- What is found under a name is listed under it, cut as names are cut. -/
  listed : ∀ {now name child}, name ≠ "" → '/' ∉ name.toList →
    fs.outcome now (.lookup (text ++ "/" ++ name)) = .ok (.inode child) →
      ∃ entry ∈ listing, Utf8.encode entry.1.toList = Name.truncate (Utf8.encode name.toList) ∧
        entry.2.inode = child

section

variable {fs : FileSystem} {diskSize now : UInt32} (hsound : fs.content.Sound diskSize)
  (hfaults : fs.device.faults = Faults.none)

include hsound hfaults

theorem path_of_lookup {text : String} {id : UInt32}
    (h : fs.outcome now (.lookup text) = .ok (.inode id)) :
    ∃ path, Path.ofString text = .ok path ∧ fs.content.disk.walk rootId path = .ok id := by
  rw [outcome_asks hfaults (asks_lookup now text)] at h
  cases hanswer : (fs.volume.lookup text).answer fs.device.disk with
  | error reason =>
    rw [hanswer] at h
    cases h
  | ok found =>
    rw [hanswer] at h
    obtain rfl : found = id := Response.inode.inj (Except.ok.inj h)
    obtain ⟨located, hlocate, hfound⟩ := Query.answer_bind_eq_ok.mp hanswer
    obtain ⟨id, rfl, hresolve⟩ := hsound.mounted.of_locate hlocate
    obtain rfl : id = found := Except.ok.inj hfound
    exact Disk.path_of_resolve hresolve

variable {text : String} {path : Path} {id child : UInt32} {slots : Slots} {k : Fin slotCount}
  {name : Name} (htext : Path.ofString text = .ok path)
  (hwalk : fs.content.disk.walk rootId path = .ok id)
  (hdirectory : (fs.content.disk.inode id).isDirectory = true)

include hwalk hdirectory

omit hfaults in
/-- An entry is a level below its directory, and no directory lies so deep that an entry in it has
too long a path. -/
theorem length_lt_of_slot (hslot : fs.content.disk.slotEntries id k = some (name, child)) :
    path.length < maxPathDepth := by
  have hdepth := Disk.walk_atDepth .root hwalk
  have hchild := hsound.mounted.consistent.shallow
    (.child hdepth (Disk.links_of_slotEntries hdirectory hslot))
  rwa [Nat.zero_add] at hchild

omit hsound hfaults in
theorem node_of_walk : fs.nodes id = some (.directory (fs.content.disk.slotEntries id)) :=
  Disk.nodes_eq_directory_iff.mpr
    ⟨Disk.walk_reachable Disk.reachable_root hwalk, hdirectory, rfl⟩

omit hfaults in
theorem bytes_shown : ((fs.shown (fs.content.disk.slotEntries id)).map fun entry =>
    Utf8.encode entry.1.toList) = (fs.content.disk.slotEntries id).entries.map Prod.fst := by
  rw [← entries_shown hsound (node_of_walk hwalk hdirectory), List.map_map]
  rfl

omit hfaults in
theorem nodup_shown : ((fs.shown (fs.content.disk.slotEntries id)).map Prod.fst).Nodup := by
  have hid := Disk.walk_reachable Disk.reachable_root hwalk
  have hnodup : ((fs.content.disk.slotEntries id).entries.map Prod.fst).Nodup := by
    refine Slots.nodup_names fun {k l name child other} hk hl => ?_
    obtain ⟨-, hkname, -⟩ := Disk.slotEntries_eq_some_iff.mp hk
    obtain ⟨-, hlname, -⟩ := Disk.slotEntries_eq_some_iff.mp hl
    exact hsound.mounted.consistent.unique hid (Disk.links_of_slotEntries hdirectory hk)
      (Disk.links_of_slotEntries hdirectory hl) (hkname.trans hlname.symm)
  rw [← bytes_shown hsound hwalk hdirectory] at hnodup
  refine List.Nodup.of_map (fun shown : String => Utf8.encode shown.toList) ?_
  rwa [List.map_map]

include htext

omit hfaults in
theorem leads_of_slot (hslot : fs.content.disk.slotEntries id k = some (name, child)) :
    ∃ whole, Path.ofString (text ++ "/" ++ String.ofList (Utf8.decode name)) = .ok whole ∧
      fs.content.disk.walk rootId whole = .ok child := by
  obtain ⟨hname, hchild⟩ := hsound.mounted.consistent.walk_row hwalk hdirectory hslot
  obtain ⟨shown, hempty, hslash, hnul, rfl, hfits⟩ := hname.exists_text
  have hnonempty : String.ofList shown ≠ "" := fun h =>
    hempty (by simpa using congrArg String.toList h)
  have hspelled := Path.ofString_child htext hnonempty (by simpa using hslash)
    (by simpa using hnul) (length_lt_of_slot hsound hwalk hdirectory hslot)
  rw [String.toList_ofList, Path.component_of_fits hfits] at hspelled
  rw [Utf8.decode_encode]
  exact ⟨_, hspelled, hchild⟩

theorem agrees_of_sound (hslots : fs.content.disk.slotEntries id = slots) :
    fs.Agrees text id (fs.shown slots) := by
  subst hslots
  refine ⟨?_, nodup_shown hsound hwalk hdirectory, ?_, ?_, ?_, ?_⟩
  · rw [bytes_shown hsound hwalk hdirectory, Disk.entries_slotEntries, List.map_map]
    rfl
  · intro entry hentry
    obtain ⟨⟨name, child⟩, hmem, rfl⟩ := List.mem_map.mp hentry
    obtain ⟨text, hempty, hslash, hnul, rfl, hfits⟩ :=
      (isComponent_of_entries hsound (node_of_walk hwalk hdirectory) hmem).exists_text
    simp only [Utf8.decode_encode, String.toList_ofList]
    exact ⟨fun h => hempty (by simpa using congrArg String.toList h), hslash, hnul, hfits⟩
  · intro now entry hentry
    obtain ⟨⟨name, child⟩, hmem, rfl⟩ := List.mem_map.mp hentry
    obtain ⟨k, hk⟩ := Slots.mem_entries.mp hmem
    obtain ⟨whole, hspelled, hchild⟩ := leads_of_slot hsound htext hwalk hdirectory hk
    rw [outcome_lookup hsound.mounted hfaults hspelled, hchild]
    rfl
  · intro now entry hentry
    obtain ⟨⟨name, child⟩, hmem, rfl⟩ := List.mem_map.mp hentry
    obtain ⟨k, hk⟩ := Slots.mem_entries.mp hmem
    obtain ⟨whole, hspelled, hchild⟩ := leads_of_slot hsound htext hwalk hdirectory hk
    exact outcome_attributes hsound.mounted hfaults hspelled hchild
  · intro now name child hempty hslash hfound
    obtain ⟨whole, hwhole, hchild⟩ := path_of_lookup hsound hfaults hfound
    obtain rfl := Path.of_ofString_child htext hempty hslash hwhole
    obtain ⟨parent, k, hentry⟩ := Disk.walk_concat_eq_ok_iff.mp hchild
    obtain rfl : id = parent := Except.ok.inj (hwalk.symm.trans hentry.walk)
    have hcomponent : Path.IsComponent (Path.component name.toList) :=
      Path.isComponent_of_ofString hwhole (by simp)
    have hid := Disk.walk_reachable Disk.reachable_root hwalk
    have hslot := (hsound.mounted.consistent.slotEntries_of_find hid hdirectory hcomponent).mp
      hentry.find
    rw [hentry.inode] at hslot
    refine ⟨_, List.mem_map.mpr ⟨_, Slots.mem_entries.mpr ⟨k, hslot⟩, rfl⟩, ?_, rfl⟩
    exact (congrArg Utf8.encode String.toList_ofList).trans hcomponent.encode_decode

end

/-- Whatever calls came before, a directory can be listed, and its listing agrees with looking up
the names in it. -/
theorem Reached.listing_agrees {diskSize id : UInt32} {fs : FileSystem} {text : String}
    {path : Path} {slots : Slots} (h : Reached diskSize fs) (htext : Path.ofString text = .ok path)
    (hwalk : fs.nodes.Walks rootId path (.ok id)) (hnode : fs.nodes id = some (.directory slots)) :
    ∃ listing, (∀ now, fs.outcome now (.list text) = .ok (.listing listing)) ∧
      fs.Agrees text id listing := by
  obtain ⟨hfaults, hsound⟩ := h.sound
  obtain ⟨-, hdirectory, hslots⟩ := Disk.nodes_eq_directory_iff.mp hnode
  refine ⟨fs.shown slots, fun now => ?_, agrees_of_sound hsound hfaults htext
    ((hsound.mounted.consistent.walks_text htext).mp hwalk) hdirectory hslots⟩
  obtain ⟨fs', hlist, -⟩ : ∃ fs', perform now (.list text) fs = _ ∧ _ :=
    list_shown hsound hfaults htext hwalk hnode
  rw [outcome, hlist]

/-- A file is created in an empty file system, and its root is listed. -/
theorem listing_agrees_after_create : ∃ volume device fs id slots listing,
    Device.format 16 0 (Device.ofDisk (Disk.blank 16)) = .ok volume device ∧
      perform 1 (.create "/a" 0o644 .regular ⟨0, 0⟩) ⟨device, volume⟩ = .ok (.inode id) fs ∧
      fs.nodes.Walks rootId [] (.ok rootId) ∧ fs.nodes rootId = some (.directory slots) ∧
      (∀ now, fs.outcome now (.list "/") = .ok (.listing listing)) ∧
      fs.Agrees "/" rootId listing := by
  obtain ⟨volume, device, fs, id, hformat, hreached, hperform⟩ := exists_created
  have hafter : Reached 16 fs := hreached.performed hperform
  obtain ⟨slots, hroot⟩ := hafter.sound.2.mounted.consistent.isTree.root
  have htext : Path.ofString "/" = .ok [] := by rfl
  obtain ⟨listing, hlist, hagrees⟩ := hafter.listing_agrees htext (.here rootId) hroot
  exact ⟨volume, device, fs, id, slots, listing, hformat, hperform, .here rootId, hroot, hlist,
    hagrees⟩

end FileSystem

end BlockFS
