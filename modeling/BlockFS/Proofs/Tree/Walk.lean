import BlockFS.Proofs.Codec.Directory
import BlockFS.Proofs.Tree.Basic

/-!
Searching the slots of a directory, and following a path from slot to slot. In a consistent tree the
slot of a name is unique, so what a search finds does not depend on where it begins.
-/

set_option autoImplicit false
set_option relaxedAutoImplicit false

namespace BlockFS

namespace Directory

private theorem findFinIdx?_eq_some_iff {α : Type} {n : Nat} {v : Vector α n} {p : α → Bool}
    {k : Fin n} : v.findFinIdx? p = some k ↔
      p (v.get k) = true ∧ ∀ j : Fin n, j < k → p (v.get j) = false := by
  rcases v with ⟨xs, rfl⟩
  have hcast : (Vector.mk xs rfl).findFinIdx? p = xs.findFinIdx? p := by simp [Vector.findFinIdx?]
  rw [hcast, Array.findFinIdx?_eq_some_iff]
  simp only [Bool.not_eq_true]
  exact Iff.rfl

private theorem findFinIdx?_eq_none {α : Type} {n : Nat} {v : Vector α n} {p : α → Bool} :
    v.findFinIdx? p = none ↔ ∀ k : Fin n, p (v.get k) = false := by
  rw [Vector.findFinIdx?_eq_none_iff]
  constructor
  · intro h k
    simpa using h (v.get k) (Vector.getElem_mem k.isLt)
  · intro h a ha
    obtain ⟨i, hi, rfl⟩ := Vector.getElem_of_mem ha
    exact Bool.eq_false_iff.mp (h ⟨i, hi⟩)

theorem find_eq_some_iff {d : Directory} {name : Name} {k : Fin slotCount} :
    d.find name = some k ↔ ((d.get k).used = true ∧ (d.get k).storedName = name.canonical) ∧
      ∀ j, j < k → ¬ ((d.get j).used = true ∧ (d.get j).storedName = name.canonical) := by
  simp only [find, findFinIdx?_eq_some_iff, Bool.and_eq_true, Slot.isNamed_iff,
    ← Bool.not_eq_true]

theorem find_eq_none_iff {d : Directory} {name : Name} :
    d.find name = none ↔ ∀ k, (d.get k).used = true → (d.get k).storedName ≠ name.canonical := by
  simp only [find, findFinIdx?_eq_none, ← Bool.not_eq_true, Bool.and_eq_true, Slot.isNamed_iff,
    not_and, ne_eq]

theorem firstUnused_eq_some_iff {d : Directory} {k : Fin slotCount} :
    d.firstUnused = some k ↔ (d.get k).used = false ∧ ∀ j, j < k → (d.get j).used = true := by
  simp only [firstUnused, findFinIdx?_eq_some_iff, Bool.not_eq_true', Bool.not_eq_false']

theorem isEmpty_iff {d : Directory} : d.isEmpty = true ↔ ∀ k, (d.get k).used = false := by
  simp only [isEmpty, Vector.all_eq_true, Bool.not_eq_true']
  exact ⟨fun h k => h k.val k.isLt, fun h i hi => h ⟨i, hi⟩⟩

theorem find_put_self {d : Directory} {name : Name} (hfind : d.find name = none) (k : Fin slotCount)
    {slot : Slot} (hused : slot.used = true) (hname : slot.storedName = name.canonical) :
    (d.put k slot).find name = some k := by
  refine find_eq_some_iff.mpr ⟨?_, ?_⟩
  · rw [get_put, if_pos rfl]
    exact ⟨hused, hname⟩
  · rintro j hj ⟨hother, hsame⟩
    rw [get_put, if_neg (Fin.ne_of_gt hj)] at hother hsame
    exact find_eq_none_iff.mp hfind j hother hsame

theorem find_put_of_ne {d : Directory} {name : Name} {k : Fin slotCount} {slot : Slot}
    (hold : ¬ ((d.get k).used = true ∧ (d.get k).storedName = name.canonical))
    (hnew : ¬ (slot.used = true ∧ slot.storedName = name.canonical)) :
    (d.put k slot).find name = d.find name := by
  have hsame : ∀ j, (((d.put k slot).get j).used = true ∧
      ((d.put k slot).get j).storedName = name.canonical) ↔
      ((d.get j).used = true ∧ (d.get j).storedName = name.canonical) := by
    intro j
    rw [get_put]
    split
    · rename_i hkj
      rw [← hkj]
      simp only [hold, hnew]
    · rfl
  cases hfind : d.find name with
  | none =>
    refine find_eq_none_iff.mpr fun j hused heq => ?_
    exact find_eq_none_iff.mp hfind j ((hsame j).mp ⟨hused, heq⟩).1
      ((hsame j).mp ⟨hused, heq⟩).2
  | some j =>
    obtain ⟨hfound, hfirst⟩ := find_eq_some_iff.mp hfind
    exact find_eq_some_iff.mpr ⟨(hsame j).mpr hfound, fun l hl hmatch =>
      hfirst l hl ((hsame l).mp hmatch)⟩

theorem get_put_of_find {d : Directory} {name : Name} {j k : Fin slotCount} {slot : Slot}
    (hold : ¬ ((d.get k).used = true ∧ (d.get k).storedName = name.canonical))
    (hfind : d.find name = some j) : (d.put k slot).get j = d.get j := by
  have hne : k ≠ j := by
    rintro rfl
    exact hold (find_eq_some_iff.mp hfind).1
  rw [get_put, if_neg hne]

end Directory

namespace Disk

variable {d : Disk} {diskSize : UInt32}

def walk (d : Disk) (id : UInt32) : Path → Except Error UInt32
  | [] => .ok id
  | name :: rest =>
    if (d.inode id).isDirectory then
      match (d.slots id).find name with
      | some k => d.walk ((d.slots id).get k).inode rest
      | none => .error .notFound
    else .error .notADirectory

theorem links_of_find {id : UInt32} {name : Name} {k : Fin slotCount}
    (hdirectory : (d.inode id).isDirectory = true) (h : (d.slots id).find name = some k) :
    d.Links id k ((d.slots id).get k).inode :=
  ⟨hdirectory, (Directory.find_eq_some_iff.mp h).1.1, rfl⟩

theorem walk_cons_of_find {id : UInt32} {name : Name} {k : Fin slotCount}
    (hdirectory : (d.inode id).isDirectory = true) (h : (d.slots id).find name = some k)
    (rest : Path) : d.walk id (name :: rest) = d.walk ((d.slots id).get k).inode rest := by
  rw [walk, if_pos hdirectory, h]

theorem walk_append (id : UInt32) (path rest : Path) :
    d.walk id (path ++ rest) = (d.walk id path).bind fun target => d.walk target rest := by
  induction path generalizing id with
  | nil => rfl
  | cons name path ih =>
    simp only [List.cons_append, walk]
    by_cases hdirectory : (d.inode id).isDirectory = true
    · rw [if_pos hdirectory, if_pos hdirectory]
      cases (d.slots id).find name with
      | none => rfl
      | some k => exact ih _
    · rw [if_neg hdirectory, if_neg hdirectory]
      rfl

/-- The slot that a path ends in: the names before its last lead to a directory, and the last is
that of a slot there. -/
structure Entry (d : Disk) (path : Path) (name : Name) (parent : UInt32) (k : Fin slotCount)
    (child : UInt32) : Prop where
  walk : d.walk rootId path = .ok parent
  directory : (d.inode parent).isDirectory = true
  find : (d.slots parent).find name = some k
  inode : ((d.slots parent).get k).inode = child

theorem walk_concat_eq_ok_iff {path : Path} {name : Name} {child : UInt32} :
    d.walk rootId (path ++ [name]) = .ok child ↔
      ∃ parent k, d.Entry path name parent k child := by
  rw [walk_append]
  cases hpath : d.walk rootId path with
  | error reason =>
    refine ⟨nofun, ?_⟩
    rintro ⟨parent, k, h⟩
    exact nomatch hpath.symm.trans h.walk
  | ok parent =>
    show d.walk parent [name] = .ok child ↔ _
    constructor
    · intro h
      rw [Disk.walk] at h
      split at h
      · split at h
        · exact ⟨parent, _, hpath, ‹_›, ‹_›, Except.ok.inj h⟩
        · cases h
      · cases h
    · rintro ⟨parent', k, h⟩
      obtain rfl : parent = parent' := Except.ok.inj (hpath.symm.trans h.walk)
      rw [walk_cons_of_find h.directory h.find, h.inode]
      rfl

theorem walk_of_find_none {path : Path} {name : Name} {parent : UInt32}
    (hwalk : d.walk rootId path = .ok parent) (hdirectory : (d.inode parent).isDirectory = true)
    (hfind : (d.slots parent).find name = none) (rest : Path) :
    d.walk rootId (path ++ name :: rest) = .error .notFound := by
  rw [walk_append, hwalk]
  show d.walk parent (name :: rest) = .error .notFound
  rw [walk, if_pos hdirectory, hfind]

theorem walk_concat_eq_notFound_iff {path : Path} {name : Name} {parent : UInt32}
    (hwalk : d.walk rootId path = .ok parent) (hdirectory : (d.inode parent).isDirectory = true) :
    d.walk rootId (path ++ [name]) = .error .notFound ↔ (d.slots parent).find name = none := by
  constructor
  · intro hmissing
    cases hfind : (d.slots parent).find name with
    | none => rfl
    | some k =>
      have hfound := walk_concat_eq_ok_iff.mpr ⟨parent, k, hwalk, hdirectory, hfind, rfl⟩
      exact nomatch hmissing.symm.trans hfound
  · intro hfind
    exact walk_of_find_none hwalk hdirectory hfind []

theorem Entry.links {path : Path} {name : Name} {parent child : UInt32} {k : Fin slotCount}
    (h : d.Entry path name parent k child) : d.Links parent k child :=
  ⟨h.directory, (Directory.find_eq_some_iff.mp h.find).1.1, h.inode⟩

theorem walk_atDepth {depth : Nat} {id target : UInt32} (hid : d.AtDepth depth id) {path : Path}
    (h : d.walk id path = .ok target) : d.AtDepth (depth + path.length) target := by
  induction path generalizing depth id with
  | nil =>
    cases h
    exact hid
  | cons name rest ih =>
    rw [walk] at h
    split at h
    · split at h
      · have hchild := ih (.child hid (links_of_find ‹_› ‹_›)) h
        rwa [List.length_cons, Nat.add_comm rest.length 1, ← Nat.add_assoc]
      · cases h
    · cases h

theorem Entry.reachable {path : Path} {name : Name} {parent child : UInt32} {k : Fin slotCount}
    (h : d.Entry path name parent k child) : d.Reachable parent :=
  ⟨_, walk_atDepth .root h.walk⟩

theorem walk_reachable {id target : UInt32} (hid : d.Reachable id) {path : Path}
    (h : d.walk id path = .ok target) : d.Reachable target := by
  obtain ⟨depth, hdepth⟩ := hid
  exact ⟨_, walk_atDepth hdepth h⟩

namespace Consistent

variable (h : d.Consistent diskSize)

include h

theorem storedName_isComponent {id child : UInt32} {k : Fin slotCount} (hid : d.Reachable id)
    (hlink : d.Links id k child) : Path.IsComponent ((d.slots id).get k).storedName := by
  obtain ⟨name, hname, hfield⟩ := h.named hid hlink
  rw [Slot.storedName_of_toField hfield hname.zero_not_mem, hname.truncate_eq]
  exact hname

theorem find_eq_some_iff {id : UInt32} {name : Name} {k : Fin slotCount} (hid : d.Reachable id)
    (hdirectory : (d.inode id).isDirectory = true) (hname : Path.IsComponent name) :
    (d.slots id).find name = some k ↔
      ((d.slots id).get k).used = true ∧ ((d.slots id).get k).storedName = name := by
  rw [Directory.find_eq_some_iff, hname.canonical_eq]
  constructor
  · exact fun hfind => hfind.1
  · rintro ⟨hused, hstored⟩
    refine ⟨⟨hused, hstored⟩, ?_⟩
    rintro j hj ⟨hused', hstored'⟩
    have heq := h.unique hid ⟨hdirectory, hused, rfl⟩ ⟨hdirectory, hused', rfl⟩
      (hstored.trans hstored'.symm)
    rw [heq] at hj
    exact absurd hj (Nat.lt_irrefl j.val)

end Consistent

end Disk

end BlockFS
