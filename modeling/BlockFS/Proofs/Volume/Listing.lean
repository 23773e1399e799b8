import BlockFS.Proofs.Tree.Updates
import BlockFS.Proofs.Volume.Answers

/-!
What looking up a path and listing a directory are answered on a mounted volume. A listing has a row
for each entry, in the order of the slots; where only one slot differs the listings are the same but
for a row.
-/

set_option autoImplicit false
set_option relaxedAutoImplicit false

namespace BlockFS

def Slots.entries (slots : Slots) : List (Name × UInt32) := (List.ofFn slots).filterMap id

theorem Slots.mem_entries {slots : Slots} {entry : Name × UInt32} :
    entry ∈ slots.entries ↔ ∃ k, slots k = some entry := by
  simp only [entries, List.mem_filterMap, List.mem_ofFn, id_eq, exists_eq_right]

theorem Slots.length_entries_lt {slots : Slots} {k : Fin slotCount} (hfree : slots k = none) :
    slots.entries.length < slotCount := by
  have hnone : none ∈ List.ofFn slots := hfree ▸ List.mem_ofFn.mpr ⟨k, rfl⟩
  have hlt : slots.entries.length < (List.ofFn slots).length :=
    List.length_filterMap_lt_length_iff_exists.mpr ⟨none, hnone, rfl⟩
  rwa [List.length_ofFn] at hlt

theorem Disk.entries_slotEntries (d : Disk) (directory : UInt32) :
    (d.slotEntries directory).entries =
      (d.slots directory).entries.map fun slot => (slot.storedName, slot.inode) := by
  have hslots : List.ofFn (d.slotEntries directory) =
      (d.slots directory).toList.map Slot.listed := by
    refine List.ext_getElem (by rw [List.length_ofFn, List.length_map, Vector.length_toList])
      fun k hk hk' => ?_
    rw [List.getElem_ofFn, List.getElem_map, Vector.getElem_toList]
    rfl
  rw [Slots.entries, hslots, List.filterMap_map, Directory.entries]
  induction (d.slots directory).toList with
  | nil => rfl
  | cons slot rest ih =>
    by_cases hused : slot.used = true
    · have hentry : (id ∘ Slot.listed) slot = some (slot.storedName, slot.inode) := if_pos hused
      rw [List.filterMap_cons_some hentry, List.filter_cons_of_pos hused, List.map_cons, ih]
    · have hentry : (id ∘ Slot.listed) slot = none := if_neg hused
      rw [List.filterMap_cons_none hentry, List.filter_cons_of_neg hused, ih]

def Disk.row (d : Disk) (directory : UInt32) (k : Fin slotCount) : Option (Name × Attributes) :=
  (d.slotEntries directory k).map fun entry => (entry.1, (d.inode entry.2).attributes entry.2)

def Disk.listing (d : Disk) (directory : UInt32) : List (Name × Attributes) :=
  (List.ofFn (d.row directory)).filterMap id

theorem Disk.listing_eq (d : Disk) (directory : UInt32) : d.listing directory =
    (d.slotEntries directory).entries.map fun entry =>
      (entry.1, (d.inode entry.2).attributes entry.2) := by
  have hrows : List.ofFn (d.row directory) = (List.ofFn (d.slotEntries directory)).map
      (Option.map fun entry => (entry.1, (d.inode entry.2).attributes entry.2)) := by
    rw [List.map_ofFn]
    rfl
  rw [Disk.listing, Slots.entries, hrows, List.filterMap_map, List.map_filterMap]
  rfl

theorem Disk.Reachable.child_of_entries {d : Disk} {directory : UInt32} {slot : Slot}
    (h : d.Reachable directory) (hdirectory : (d.inode directory).isDirectory = true)
    (hslot : slot ∈ (d.slots directory).entries) : d.Reachable slot.inode := by
  obtain ⟨hmem, hused⟩ := List.mem_filter.mp hslot
  obtain ⟨k, hk, rfl⟩ := List.getElem_of_mem hmem
  rw [Vector.getElem_toList] at hused ⊢
  rw [Vector.length_toList] at hk
  have hlink : d.Links directory ⟨k, hk⟩ ((d.slots directory)[k]).inode := ⟨hdirectory, hused, rfl⟩
  exact h.child hlink

/-- Two lists are the same but for one element of each at most, which has a property. -/
def SameBut {α : Type} (p : α → Prop) (first second : List α) : Prop :=
  ∃ front old new back, first = front ++ old ++ back ∧ second = front ++ new ++ back ∧
    old.length ≤ 1 ∧ new.length ≤ 1 ∧ ∀ a ∈ old ++ new, p a

namespace SameBut

variable {α β : Type} {p : α → Prop}

theorem refl (p : α → Prop) (list : List α) : SameBut p list list :=
  ⟨list, [], [], [], by simp, by simp, by simp, by simp, by simp⟩

theorem mono {q : α → Prop} {first second : List α} (h : SameBut p first second)
    (hq : ∀ a, p a → q a) : SameBut q first second := by
  obtain ⟨front, old, new, back, hfirst, hsecond, hold, hnew, hp⟩ := h
  exact ⟨front, old, new, back, hfirst, hsecond, hold, hnew, fun a ha => hq a (hp a ha)⟩

theorem map {first second : List α} (h : SameBut p first second) {q : β → Prop} {f : α → β}
    (hq : ∀ a, p a → q (f a)) : SameBut q (first.map f) (second.map f) := by
  obtain ⟨front, old, new, back, rfl, rfl, hold, hnew, hp⟩ := h
  refine ⟨front.map f, old.map f, new.map f, back.map f, by simp, by simp, by simpa using hold,
    by simpa using hnew, ?_⟩
  intro b hb
  rw [← List.map_append] at hb
  obtain ⟨a, ha, rfl⟩ := List.mem_map.mp hb
  exact hq a (hp a ha)

private theorem ofFn_split {n : Nat} (f : Fin n → Option α) (k : Fin n) :
    (List.ofFn f).filterMap id = ((List.ofFn f).take k).filterMap id ++ (f k).toList ++
      ((List.ofFn f).drop (k + 1)).filterMap id := by
  have hlength : k.val < (List.ofFn f).length := by
    rw [List.length_ofFn]
    exact k.isLt
  have hget : (List.ofFn f)[k.val] = f k := List.getElem_ofFn hlength
  conv_lhs => rw [← List.take_append_drop k.val (List.ofFn f), List.drop_eq_getElem_cons hlength,
    List.filterMap_append, hget]
  rw [List.append_assoc]
  cases hrow : f k <;> rfl

theorem of_rows {n : Nat} {f g : Fin n → Option α} (k : Fin n) (hothers : ∀ j, j ≠ k → g j = f j)
    (hold : ∀ a, f k = some a → p a) (hnew : ∀ a, g k = some a → p a) :
    SameBut p ((List.ofFn f).filterMap id) ((List.ofFn g).filterMap id) := by
  have hfront : (List.ofFn g).take k = (List.ofFn f).take k := by
    refine List.ext_getElem (by simp) fun i hi hi' => ?_
    rw [List.length_take] at hi
    rw [List.getElem_take, List.getElem_take, List.getElem_ofFn, List.getElem_ofFn]
    exact hothers _ fun heq => by
      have hval := congrArg Fin.val heq
      simp only at hval
      omega
  have hback : (List.ofFn g).drop (k + 1) = (List.ofFn f).drop (k + 1) := by
    refine List.ext_getElem (by simp) fun i hi hi' => ?_
    rw [List.getElem_drop, List.getElem_drop, List.getElem_ofFn, List.getElem_ofFn]
    exact hothers _ fun heq => by
      have hval := congrArg Fin.val heq
      simp only at hval
      omega
  refine ⟨((List.ofFn f).take k).filterMap id, (f k).toList, (g k).toList,
    ((List.ofFn f).drop (k + 1)).filterMap id, ofFn_split f k, ?_, ?_, ?_, ?_⟩
  · rw [ofFn_split g k, hfront, hback]
  · exact Option.length_toList_le
  · exact Option.length_toList_le
  · intro a ha
    rcases List.mem_append.mp ha with ha | ha
    · exact hold a (Option.mem_toList.mp ha)
    · exact hnew a (Option.mem_toList.mp ha)

end SameBut

namespace Content.Mounted

open Query (answer_bind_of_ok answer_bind_of_error)

variable {c : Content} {diskSize : UInt32} (h : c.Mounted diskSize)

include h

theorem resolve_answer (text : String) :
    (c.volume.lookup text).answer c.disk = Failure.ofRefusal (c.disk.resolve text 0) := by
  rw [Volume.lookup]
  cases hresolve : c.disk.resolve text 0 with
  | ok id => exact answer_bind_of_ok (h.locate_answer_ok hresolve) _
  | error reason => exact answer_bind_of_error (h.locate_answer_error hresolve) _

theorem lookup_answer {text : String} {path : Path} (htext : Path.ofString text = .ok path) :
    (c.volume.lookup text).answer c.disk = Failure.ofRefusal (c.disk.walk rootId path) := by
  rw [h.resolve_answer, Disk.resolve_zero htext]

theorem attributes_answer {text : String} {path : Path} (htext : Path.ofString text = .ok path) :
    (c.volume.attributes text).answer c.disk = Failure.ofRefusal
      ((c.disk.walk rootId path).map fun id => (c.disk.inode id).attributes id) := by
  rw [Volume.attributes]
  cases hwalk : c.disk.walk rootId path with
  | ok id => exact answer_bind_of_ok (h.locate_answer_ok ((Disk.resolve_zero htext).trans hwalk)) _
  | error reason =>
    exact answer_bind_of_error (h.locate_answer_error ((Disk.resolve_zero htext).trans hwalk)) _

theorem describe_answer {slots : List Slot} (hslots : ∀ slot ∈ slots, c.disk.Reachable slot.inode) :
    (c.volume.describe slots).answer c.disk = .ok (slots.map fun slot =>
      (slot.storedName, (c.disk.inode slot.inode).attributes slot.inode)) := by
  induction slots with
  | nil => rfl
  | cons slot rest ih =>
    rw [Volume.describe, answer_bind_of_ok (h.loadInode_answer (hslots slot List.mem_cons_self)),
      answer_bind_of_ok (ih fun other hother => hslots other (List.mem_cons_of_mem slot hother))]
    rfl

theorem list_answer {text : String} {path : Path} (htext : Path.ofString text = .ok path)
    {id : UInt32} (hwalk : c.disk.walk rootId path = .ok id)
    (hdirectory : (c.disk.inode id).isDirectory = true) :
    (c.volume.list text).answer c.disk = .ok ((c.disk.slotEntries id).entries.map fun entry =>
      (entry.1, (c.disk.inode entry.2).attributes entry.2)) := by
  have hid := Disk.walk_reachable Disk.reachable_root hwalk
  have hslots : ∀ slot ∈ (c.disk.slots id).entries, c.disk.Reachable slot.inode :=
    fun _ => hid.child_of_entries hdirectory
  rw [Volume.list, answer_bind_of_ok (h.locate_answer_ok ((Disk.resolve_zero htext).trans hwalk)),
    answer_bind_of_ok (h.slots_answer_directory hid hdirectory), h.describe_answer hslots,
    c.disk.entries_slotEntries, List.map_map]
  rfl

/-- What a listing is answered, whatever the path leads to. -/
theorem list_eq {text : String} {path : Path} (htext : Path.ofString text = .ok path) :
    (c.volume.list text).answer c.disk = Failure.ofRefusal (do
      let id ← c.disk.walk rootId path
      if (c.disk.inode id).isDirectory then return c.disk.listing id
      else .error .notADirectory) := by
  cases hwalk : c.disk.walk rootId path with
  | error reason =>
    rw [Volume.list]
    exact answer_bind_of_error (h.locate_answer_error ((Disk.resolve_zero htext).trans hwalk)) _
  | ok id =>
    by_cases hdirectory : (c.disk.inode id).isDirectory = true
    · rw [h.list_answer htext hwalk hdirectory, ← Disk.listing_eq]
      simp only [bind, Except.bind, hdirectory, if_true]
      rfl
    · have hslots := h.slots_answer (Disk.walk_reachable Disk.reachable_root hwalk)
      rw [if_neg hdirectory] at hslots
      rw [Volume.list,
        answer_bind_of_ok (h.locate_answer_ok ((Disk.resolve_zero htext).trans hwalk)),
        answer_bind_of_error hslots]
      simp only [bind, Except.bind, if_neg hdirectory]
      rfl

end Content.Mounted

end BlockFS
