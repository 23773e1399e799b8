import BlockFS.Proofs.Tree.InUse
import BlockFS.Proofs.Volume.Answers
import BlockFS.Volume.Attributes
import BlockFS.Volume.Namespace

/-!
When the operations on names and attributes are granted on a mounted volume, and what they then
decide to change.
-/

set_option autoImplicit false
set_option relaxedAutoImplicit false

namespace BlockFS

namespace Disk

def detached (d : Disk) (parent : UInt32) (k : Fin slotCount) : Effect :=
  Effect.storeSlots (d.inode parent) ((d.slots parent).put k ((d.slots parent).get k).release)

def renamed (d : Disk) (parent : UInt32) (k : Fin slotCount) (name : Name) : Effect :=
  Effect.storeSlots (d.inode parent) ((d.slots parent).put k (((d.slots parent).get k).rename name))

def attached (d : Disk) (parent : UInt32) (k : Fin slotCount) (name : Name) (child : UInt32) :
    Effect :=
  Effect.storeSlots (d.inode parent) ((d.slots parent).put k (Slot.entry child name))

theorem entry_of_resolve {d : Disk} {text : String} {id : UInt32}
    (hresolve : d.resolve text 0 = .ok id) (hroot : id ≠ rootId) :
    ∃ path name parent k, Path.ofString text = .ok (path ++ [name]) ∧
      d.Entry path name parent k id := by
  cases htext : Path.ofString text with
  | error reason =>
    rw [resolve, htext] at hresolve
    cases hresolve
  | ok path =>
    rw [resolve_zero htext] at hresolve
    rcases List.eq_nil_or_concat path with rfl | ⟨path, name, rfl⟩
    · exact absurd (Except.ok.inj hresolve).symm hroot
    · rw [List.concat_eq_append] at hresolve ⊢
      obtain ⟨parent, k, hentry⟩ := walk_concat_eq_ok_iff.mp hresolve
      exact ⟨path, name, parent, k, rfl, hentry⟩

theorem entry_of_file {d : Disk} {diskSize : UInt32} (hd : d.Consistent diskSize) {text : String}
    {id : UInt32} (hresolve : d.resolve text 0 = .ok id)
    (hfile : (d.inode id).isDirectory = false) :
    ∃ path name parent k, Path.ofString text = .ok (path ++ [name]) ∧
      d.Entry path name parent k id := by
  refine entry_of_resolve hresolve ?_
  rintro rfl
  exact Bool.false_ne_true (hfile.symm.trans hd.root_directory)

theorem Entry.resolve {d : Disk} {text : String} {path : Path} {name : Name} {parent child : UInt32}
    {k : Fin slotCount} (h : d.Entry path name parent k child)
    (htext : Path.ofString text = .ok (path ++ [name])) : d.resolve text 0 = .ok child := by
  rw [resolve_zero htext]
  exact walk_concat_eq_ok_iff.mpr ⟨parent, k, h⟩

end Disk

theorem Effect.of_storeInode {sb : Superblock} {id : UInt32} {inode : Inode} {effect : Effect}
    (h : Effect.storeInode sb id inode = .ok effect) : effect = .store id inode.encode := by
  rw [storeInode] at h
  cases hrange : sb.checkRange id with
  | error reason =>
    rw [hrange] at h
    cases h
  | ok =>
    rw [hrange] at h
    exact (Except.ok.inj h).symm

/-! ### Any disk -/

namespace Volume

open Query (answer_bind_of_ok answer_bind_eq_ok answer_lift_refusal)
open Failure (of_ofRefusal)

variable {v : Volume} {disk : Disk} {id : UInt32} {text : String}

/-- A path ends in a slot of the directory that it leads to without its last name. -/
structure EndsIn (v : Volume) (disk : Disk) (text : String) (parent : UInt32)
    (k : Fin slotCount) : Prop where
  located : (v.locate text 1).answer disk = .ok (parent, disk.inode parent)
  directory : (disk.inode parent).isDirectory = true
  inside : (disk.inode parent).slotsBlock.toNat < disk.size
  named : ∃ path name, Path.ofString text = .ok (path ++ [name]) ∧
    (disk.slots parent).find name = some k

theorem detach_eq_ok {update : Update UInt32} : (v.detach text).answer disk = .ok update ↔
    ∃ parent k, v.EndsIn disk text parent k ∧
      update = ⟨((disk.slots parent).get k).inode, [disk.detached parent k]⟩ := by
  constructor
  · intro h
    rw [detach] at h
    obtain ⟨path, htext, h⟩ := answer_bind_eq_ok.mp h
    rw [answer_lift_refusal] at htext
    replace htext := of_ofRefusal htext
    rcases List.eq_nil_or_concat path with rfl | ⟨path, name, rfl⟩
    · cases h
    rw [List.concat_eq_append] at htext
    simp only [List.concat_eq_append, List.getLast?_append, List.getLast?_singleton,
      Option.some_or] at h
    obtain ⟨located, hlocate, h⟩ := answer_bind_eq_ok.mp h
    obtain ⟨parent, rfl, -⟩ := of_locate hlocate
    obtain ⟨slots, hslots, h⟩ := answer_bind_eq_ok.mp h
    obtain ⟨⟨hdirectory, hinside⟩, rfl⟩ := Disk.slots_eq_ok.mp hslots
    cases hfind : (disk.slots parent).find name with
    | none =>
      simp only [hfind] at h
      cases h
    | some k =>
      simp only [hfind] at h
      exact ⟨parent, k, ⟨hlocate, hdirectory, hinside, path, name, htext, hfind⟩,
        (Except.ok.inj h).symm⟩
  · rintro ⟨parent, k, ⟨hlocate, hdirectory, hinside, path, name, htext, hfind⟩, rfl⟩
    rw [detach, htext, answer_bind_of_ok (a := path ++ [name]) rfl]
    simp only [List.getLast?_append, List.getLast?_singleton, Option.some_or]
    rw [answer_bind_of_ok hlocate,
      answer_bind_of_ok (Disk.slots_eq_ok.mpr ⟨⟨hdirectory, hinside⟩, rfl⟩)]
    simp only [hfind]
    rfl

/-! ### What a removal finds before it frees a slot -/

/-- The number of the file at a path that may be deleted, and the blocks that are then given
back. -/
def condemnFile (v : Volume) (path : String) : Query (UInt32 × List UInt32) := do
  let (id, inode) ← v.locate path 0
  if inode.isDirectory then Query.refuse .isADirectory
  else
    let _ ← inode.boundedLength
    let blocks ← inode.blocks
    return (id, blocks ++ [id])

def condemnDirectory (v : Volume) (path : String) : Query (UInt32 × List UInt32) := do
  let (id, inode) ← v.locate path 0
  if id = rootId then Query.refuse .invalidArgument
  else
    let slots ← inode.slots
    if slots.isEmpty then return (id, [id, inode.slotsBlock]) else Query.refuse .notEmpty

/-- Frees the slot of a path and gives back what was condemned. -/
def discard (v : Volume) (text : String) (condemned : UInt32 × List UInt32) :
    Query (Update Unit) := do
  let detached ← v.detach text
  return ⟨(), detached.effects ++ Effect.deallocate condemned.2⟩

theorem deleteFile_eq (v : Volume) (text : String) :
    v.deleteFile text = v.condemnFile text >>= v.discard text := by
  rw [deleteFile, condemnFile]
  simp only [bind_assoc]
  congr 1
  funext located
  split
  · rfl
  · simp only [bind_assoc, pure_bind]
    rfl

theorem deleteDirectory_eq (v : Volume) (text : String) :
    v.deleteDirectory text = v.condemnDirectory text >>= v.discard text := by
  rw [deleteDirectory, condemnDirectory]
  simp only [bind_assoc]
  congr 1
  funext located
  split
  · rfl
  · simp only [bind_assoc]
    congr 1
    funext slots
    split <;> rfl

theorem condemnFile_eq_ok {blocks : List UInt32} :
    (v.condemnFile text).answer disk = .ok (id, blocks) ↔
      (v.locate text 0).answer disk = .ok (id, disk.inode id) ∧
        (disk.inode id).isDirectory = false ∧ (disk.inode id).length ≤ maxFileSize ∧
        blocks = disk.released id := by
  constructor
  · intro h
    rw [condemnFile] at h
    obtain ⟨located, hlocate, h⟩ := answer_bind_eq_ok.mp h
    obtain ⟨id, rfl, -⟩ := of_locate hlocate
    by_cases hdirectory : (disk.inode id).isDirectory = true
    · simp only [if_pos hdirectory] at h
      cases h
    · simp only [if_neg hdirectory] at h
      obtain ⟨length, hlength, h⟩ := answer_bind_eq_ok.mp h
      rw [answer_lift_refusal] at hlength
      obtain ⟨rfl, hlimit⟩ := Inode.of_boundedLength (of_ofRefusal hlength)
      obtain ⟨own, hown, h⟩ := answer_bind_eq_ok.mp h
      rw [Inode.blocks_eq] at hown
      cases hown
      obtain ⟨rfl, rfl⟩ := Prod.mk.inj (Except.ok.inj h)
      rw [Bool.not_eq_true] at hdirectory
      exact ⟨hlocate, hdirectory, hlimit, (Disk.released_file hdirectory).symm⟩
  · rintro ⟨hlocate, hfile, hlength, rfl⟩
    have hbounded : (disk.inode id).boundedLength = .ok (disk.inode id).length :=
      if_neg (Nat.not_lt.mpr hlength)
    rw [condemnFile, answer_bind_of_ok hlocate]
    simp only [hfile, Bool.false_eq_true, if_false]
    rw [hbounded, Inode.blocks_eq, answer_bind_of_ok (a := (disk.inode id).length) rfl,
      answer_bind_of_ok (a := (disk.inode id).ownBlocks) rfl, Disk.released_file hfile]
    rfl

theorem condemnDirectory_eq_ok {blocks : List UInt32} :
    (v.condemnDirectory text).answer disk = .ok (id, blocks) ↔
      (v.locate text 0).answer disk = .ok (id, disk.inode id) ∧ id ≠ rootId ∧
        (disk.inode id).slots.answer disk = .ok (disk.slots id) ∧
        (disk.slots id).isEmpty = true ∧ blocks = disk.released id := by
  constructor
  · intro h
    rw [condemnDirectory] at h
    obtain ⟨located, hlocate, h⟩ := answer_bind_eq_ok.mp h
    obtain ⟨id, rfl, -⟩ := of_locate hlocate
    by_cases hroot : id = rootId
    · simp only [if_pos hroot] at h
      cases h
    · simp only [if_neg hroot] at h
      obtain ⟨slots, hslots, h⟩ := answer_bind_eq_ok.mp h
      obtain ⟨⟨hdirectory, -⟩, rfl⟩ := Disk.slots_eq_ok.mp hslots
      by_cases hempty : (disk.slots id).isEmpty = true
      · rw [if_pos hempty] at h
        obtain ⟨rfl, rfl⟩ := Prod.mk.inj (Except.ok.inj h)
        exact ⟨hlocate, hroot, hslots, hempty, (Disk.released_directory hdirectory).symm⟩
      · rw [if_neg hempty] at h
        cases h
  · rintro ⟨hlocate, hroot, hslots, hempty, rfl⟩
    obtain ⟨⟨hdirectory, -⟩, -⟩ := Disk.slots_eq_ok.mp hslots
    rw [condemnDirectory, answer_bind_of_ok hlocate]
    simp only [if_neg hroot]
    rw [answer_bind_of_ok hslots, if_pos hempty, Disk.released_directory hdirectory]
    rfl

theorem discard_eq_ok {condemned : UInt32 × List UInt32} {update : Update Unit} :
    (v.discard text condemned).answer disk = .ok update ↔
      ∃ parent k, v.EndsIn disk text parent k ∧
        update = ⟨(), disk.detached parent k :: Effect.deallocate condemned.2⟩ := by
  constructor
  · intro h
    obtain ⟨detached, hdetach, h⟩ := answer_bind_eq_ok.mp h
    obtain ⟨parent, k, hends, rfl⟩ := detach_eq_ok.mp hdetach
    exact ⟨parent, k, hends, (Except.ok.inj h).symm⟩
  · rintro ⟨parent, k, hends, rfl⟩
    exact answer_bind_of_ok (detach_eq_ok.mpr ⟨parent, k, hends, rfl⟩) _

theorem deleteFile_answer {parent : UInt32} {k : Fin slotCount}
    (hlocate : (v.locate text 0).answer disk = .ok (id, disk.inode id))
    (hfile : (disk.inode id).isDirectory = false) (hlength : (disk.inode id).length ≤ maxFileSize)
    (hends : v.EndsIn disk text parent k) : (v.deleteFile text).answer disk =
      .ok ⟨(), disk.detached parent k :: Effect.deallocate (disk.released id)⟩ := by
  rw [deleteFile_eq, answer_bind_of_ok (condemnFile_eq_ok.mpr ⟨hlocate, hfile, hlength, rfl⟩)]
  exact discard_eq_ok.mpr ⟨parent, k, hends, rfl⟩

end Volume

/-! ### Disks with a consistent tree -/

namespace Content.Mounted

open Query (answer_bind_of_ok answer_bind_of_error answer_bind_eq_ok answer_of_attempt
  answer_lift answer_lift_refusal)
open Failure (of_ofRefusal)
open Effect (of_storeInode)

variable {c : Content} {diskSize : UInt32} (h : c.Mounted diskSize)

include h

theorem of_locate {text : String} {depth : Nat} {located : UInt32 × Inode}
    (hlocate : (c.volume.locate text depth).answer c.disk = .ok located) :
    ∃ id, located = (id, c.disk.inode id) ∧ c.disk.resolve text depth = .ok id := by
  cases hresolve : c.disk.resolve text depth with
  | error reason => exact nomatch hlocate.symm.trans (h.locate_answer_error hresolve)
  | ok id => exact ⟨id, Except.ok.inj (hlocate.symm.trans (h.locate_answer_ok hresolve)), rfl⟩

theorem locate_parent {text : String} {path : Path} {name : Name} {parent : UInt32}
    (htext : Path.ofString text = .ok (path ++ [name]))
    (hwalk : c.disk.walk rootId path = .ok parent) :
    (c.volume.locate text 1).answer c.disk = .ok (parent, c.disk.inode parent) :=
  h.locate_answer_ok ((Disk.resolve_one htext).trans hwalk)

theorem endsIn {text : String} {path : Path} {name : Name} {parent child : UInt32}
    {k : Fin slotCount} (htext : Path.ofString text = .ok (path ++ [name]))
    (hentry : c.disk.Entry path name parent k child) : c.volume.EndsIn c.disk text parent k := by
  obtain ⟨⟨hdirectory, hinside⟩, -⟩ :=
    Disk.slots_eq_ok.mp (h.slots_answer_directory hentry.reachable hentry.directory)
  exact ⟨h.locate_parent htext hentry.walk, hdirectory, hinside, path, name, htext, hentry.find⟩

theorem detach_answer {text : String} {path : Path} {name : Name} {parent child : UInt32}
    {k : Fin slotCount} (htext : Path.ofString text = .ok (path ++ [name]))
    (hentry : c.disk.Entry path name parent k child) :
    (c.volume.detach text).answer c.disk = .ok ⟨child, [c.disk.detached parent k]⟩ :=
  Volume.detach_eq_ok.mpr ⟨parent, k, h.endsIn htext hentry, by rw [hentry.inode]⟩

theorem deleteFile_eq_ok {text : String} {update : Update Unit} :
    (c.volume.deleteFile text).answer c.disk = .ok update ↔
      ∃ path name parent k id, Path.ofString text = .ok (path ++ [name]) ∧
        c.disk.Entry path name parent k id ∧ (c.disk.inode id).isDirectory = false ∧
        update = ⟨(), c.disk.detached parent k ::
          Effect.deallocate (c.disk.released id)⟩ := by
  constructor
  · intro hplan
    rw [Volume.deleteFile_eq] at hplan
    obtain ⟨⟨id, blocks⟩, hcondemn, hplan⟩ := answer_bind_eq_ok.mp hplan
    obtain ⟨hlocate, hfile, -, rfl⟩ := Volume.condemnFile_eq_ok.mp hcondemn
    obtain ⟨_, ⟨⟩, hresolve⟩ := h.of_locate hlocate
    obtain ⟨path, name, parent, k, htext, hentry⟩ :=
      Disk.entry_of_file h.consistent hresolve hfile
    rw [Volume.discard, answer_bind_of_ok (h.detach_answer htext hentry)] at hplan
    exact ⟨path, name, parent, k, id, htext, hentry, hfile, (Except.ok.inj hplan).symm⟩
  · rintro ⟨path, name, parent, k, id, htext, hentry, hdirectory, rfl⟩
    have hresolve := hentry.resolve htext
    have hformed := h.consistent.formed (Disk.resolve_reachable hresolve)
    exact Volume.deleteFile_answer (h.locate_answer_ok hresolve) hdirectory hformed.length_le
      (h.endsIn htext hentry)

theorem deleteDirectory_eq_ok {text : String} {update : Update Unit} :
    (c.volume.deleteDirectory text).answer c.disk = .ok update ↔
      ∃ path name parent k id, Path.ofString text = .ok (path ++ [name]) ∧
        c.disk.Entry path name parent k id ∧ (c.disk.inode id).isDirectory = true ∧
        (∀ j, ((c.disk.slots id).get j).used = false) ∧
        update = ⟨(), c.disk.detached parent k ::
          Effect.deallocate (c.disk.released id)⟩ := by
  constructor
  · intro hplan
    rw [Volume.deleteDirectory_eq] at hplan
    obtain ⟨⟨id, blocks⟩, hcondemn, hplan⟩ := answer_bind_eq_ok.mp hplan
    obtain ⟨hlocate, hroot, hslots, hempty, rfl⟩ := Volume.condemnDirectory_eq_ok.mp hcondemn
    obtain ⟨⟨hdirectory, -⟩, -⟩ := Disk.slots_eq_ok.mp hslots
    obtain ⟨_, ⟨⟩, hresolve⟩ := h.of_locate hlocate
    obtain ⟨path, name, parent, k, htext, hentry⟩ := Disk.entry_of_resolve hresolve hroot
    rw [Volume.discard, answer_bind_of_ok (h.detach_answer htext hentry)] at hplan
    exact ⟨path, name, parent, k, id, htext, hentry, hdirectory, Directory.isEmpty_iff.mp hempty,
      (Except.ok.inj hplan).symm⟩
  · rintro ⟨path, name, parent, k, id, htext, hentry, hdirectory, hempty, rfl⟩
    have hresolve := hentry.resolve htext
    have hroot : id ≠ rootId := by
      rintro rfl
      exact h.consistent.not_links_root hentry.reachable hentry.links
    have hcondemn := Volume.condemnDirectory_eq_ok.mpr ⟨h.locate_answer_ok hresolve, hroot,
      h.slots_answer_directory (Disk.resolve_reachable hresolve) hdirectory,
      Directory.isEmpty_iff.mpr hempty, rfl⟩
    rw [Volume.deleteDirectory_eq, answer_bind_of_ok hcondemn]
    exact Volume.discard_eq_ok.mpr ⟨parent, k, h.endsIn htext hentry, rfl⟩

theorem of_rename {source target : String} {update : Update Unit}
    (hplan : (c.volume.rename source target).answer c.disk = .ok update) :
    ∃ path oldName newName parent k child, Path.ofString source = .ok (path ++ [oldName]) ∧
      Path.ofString target = .ok (path ++ [newName]) ∧ c.disk.Entry path oldName parent k child ∧
      (c.disk.slots parent).find newName = none ∧
      update = ⟨(), [c.disk.renamed parent k newName]⟩ := by
  rw [Volume.rename] at hplan
  obtain ⟨located, hsource, hplan⟩ := answer_bind_eq_ok.mp hplan
  obtain ⟨child, -, hsource⟩ := h.of_locate hsource
  obtain ⟨result, hattempt, hplan⟩ := answer_bind_eq_ok.mp hplan
  have htarget := answer_of_attempt hattempt
  -- A rename goes on only when the target is absent; a target that could not be looked up for
  -- another reason ends it.
  match result, htarget, hplan with
  | .error (.refused .notFound), htarget, hplan =>
    obtain ⟨sourcePath, hsourcePath, hplan⟩ := answer_bind_eq_ok.mp hplan
    obtain ⟨targetPath, htargetPath, hplan⟩ := answer_bind_eq_ok.mp hplan
    rw [answer_lift_refusal] at hsourcePath htargetPath
    replace hsourcePath := of_ofRefusal hsourcePath
    replace htargetPath := of_ofRefusal htargetPath
    rcases List.eq_nil_or_concat sourcePath with rfl | ⟨path, oldName, rfl⟩
    · cases hplan
    rcases List.eq_nil_or_concat targetPath with rfl | ⟨path', newName, rfl⟩
    · simp only [List.concat_eq_append, List.getLast?_append, List.getLast?_singleton,
        Option.some_or, List.getLast?_nil] at hplan
      cases hplan
    rw [List.concat_eq_append] at hsourcePath htargetPath
    simp only [List.concat_eq_append, List.getLast?_append, List.getLast?_singleton,
      Option.some_or, List.dropLast_concat] at hplan
    by_cases hpath : path = path'
    · subst hpath
      rw [Disk.resolve_zero hsourcePath] at hsource
      obtain ⟨parent, k, hentry⟩ := Disk.walk_concat_eq_ok_iff.mp hsource
      rw [if_neg (not_not_intro rfl), answer_bind_of_ok (h.locate_parent hsourcePath hentry.walk),
        answer_bind_of_ok (h.slots_answer_directory hentry.reachable hentry.directory)] at hplan
      simp only [hentry.find] at hplan
      refine ⟨path, oldName, newName, parent, k, child, hsourcePath, htargetPath, hentry, ?_,
        (Except.ok.inj hplan).symm⟩
      cases hfind : (c.disk.slots parent).find newName with
      | none => rfl
      | some l =>
        -- A slot of that name would have made the target resolve.
        have hresolve := Disk.Entry.resolve ⟨hentry.walk, hentry.directory, hfind, rfl⟩ htargetPath
        exact nomatch htarget.symm.trans (h.locate_answer_ok hresolve)
    · rw [if_pos hpath] at hplan
      cases hplan

/-- A rename is granted when the two paths differ, if at all, in their last names, of which the
directory has the first and not the second. -/
theorem rename_answer {source target : String} {path : Path} {oldName newName : Name}
    {parent child : UInt32} {k : Fin slotCount}
    (hsource : Path.ofString source = .ok (path ++ [oldName]))
    (htarget : Path.ofString target = .ok (path ++ [newName]))
    (hentry : c.disk.Entry path oldName parent k child)
    (hfind : (c.disk.slots parent).find newName = none) :
    (c.volume.rename source target).answer c.disk =
      .ok ⟨(), [c.disk.renamed parent k newName]⟩ := by
  have hmissing : (c.volume.locate target 0).answer c.disk = .error (.refused .notFound) :=
    h.locate_answer_error ((Disk.resolve_zero htarget).trans
      ((Disk.walk_concat_eq_notFound_iff hentry.walk hentry.directory).mpr hfind))
  have hattempt : (c.volume.locate target 0).attempt.answer c.disk =
      .ok (.error (.refused .notFound)) := by
    rw [Query.answer_attempt (by rw [hmissing]; exact nofun), hmissing]
  rw [Volume.rename, answer_bind_of_ok (h.locate_answer_ok (hentry.resolve hsource)),
    answer_bind_of_ok hattempt]
  simp only [hsource, htarget]
  rw [answer_bind_of_ok (a := path ++ [oldName]) rfl,
    answer_bind_of_ok (a := path ++ [newName]) rfl]
  simp only [List.getLast?_append, List.getLast?_singleton, Option.some_or, List.dropLast_concat,
    ne_eq, not_true_eq_false, if_false]
  rw [answer_bind_of_ok (h.locate_parent hsource hentry.walk),
    answer_bind_of_ok (h.slots_answer_directory hentry.reachable hentry.directory)]
  simp only [hentry.find]
  rfl

theorem setPermissions_eq_ok {text : String} {permissions : UInt32} {update : Update Unit} :
    (c.volume.setPermissions text permissions).answer c.disk = .ok update ↔
      ∃ id, c.disk.resolve text 0 = .ok id ∧
        update = ⟨(), [.store id ((c.disk.inode id).withPermissions permissions).encode]⟩ := by
  constructor
  · intro hplan
    rw [Volume.setPermissions] at hplan
    obtain ⟨located, hlocate, hplan⟩ := answer_bind_eq_ok.mp hplan
    obtain ⟨id, rfl, hresolve⟩ := h.of_locate hlocate
    simp only [h.storeInode (Disk.resolve_reachable hresolve)] at hplan
    exact ⟨id, hresolve, (Except.ok.inj hplan).symm⟩
  · rintro ⟨id, hresolve, rfl⟩
    rw [Volume.setPermissions, answer_bind_of_ok (h.locate_answer_ok hresolve)]
    simp only [h.storeInode (Disk.resolve_reachable hresolve)]
    rfl

theorem setModified_eq_ok {text : String} {mtime : UInt32} {update : Update Unit} :
    (c.volume.setModified text mtime).answer c.disk = .ok update ↔
      ∃ id, c.disk.resolve text 0 = .ok id ∧ (c.disk.inode id).isRegular = true ∧
        update = ⟨(), [.store id { c.disk.inode id with mtime := mtime }.encode]⟩ := by
  constructor
  · intro hplan
    rw [Volume.setModified] at hplan
    obtain ⟨located, hlocate, hplan⟩ := answer_bind_eq_ok.mp hplan
    obtain ⟨id, rfl, hresolve⟩ := h.of_locate hlocate
    by_cases hregular : (c.disk.inode id).isRegular = true
    · simp only [hregular, if_true, h.storeInode (Disk.resolve_reachable hresolve)] at hplan
      exact ⟨id, hresolve, hregular, (Except.ok.inj hplan).symm⟩
    · simp only [if_neg hregular] at hplan
      cases hplan
  · rintro ⟨id, hresolve, hregular, rfl⟩
    rw [Volume.setModified, answer_bind_of_ok (h.locate_answer_ok hresolve)]
    simp only [hregular, if_true, h.storeInode (Disk.resolve_reachable hresolve)]
    rfl

/-- A new entry is granted when its parent is a directory in which the name is absent and a slot is
free, and there are free blocks. -/
theorem create_answer (now permissions : UInt32) (type : FileType) (owner : Owner) {text : String}
    {path : Path} {name : Name} {parent id : UInt32} {k : Fin slotCount} {blank : List UInt32}
    (htext : Path.ofString text = .ok (path ++ [name]))
    (hwalk : c.disk.walk rootId path = .ok parent)
    (hdirectory : (c.disk.inode parent).isDirectory = true)
    (hfind : (c.disk.slots parent).find name = none)
    (hunused : (c.disk.slots parent).firstUnused = some k)
    (hblocks : c.volume.bitmap.firstFit reservedBlocks type.blockCount = .ok (id :: blank)) :
    (c.volume.create now text permissions type owner).answer c.disk =
      .ok ⟨id, .store id (Inode.fresh type permissions owner now blank.head?).encode ::
        c.disk.attached parent k name id ::
          ((blank.map fun block => .store block Block.zero) ++
            Effect.allocate (id :: blank))⟩ := by
  have hparent := Disk.walk_reachable Disk.reachable_root hwalk
  have hreach : (c.volume.superblock.reach (path ++ [name]) 1).answer c.disk = .ok parent := by
    rw [h.reach_answer, List.length_append, List.length_singleton, Nat.add_sub_cancel,
      List.take_left, hwalk]
    rfl
  have hoffers := Bitmap.offers_of_firstFit h.fits hblocks
  obtain ⟨hlow, hhigh, -⟩ := Bitmap.mem_clear.mp (hoffers.clear id List.mem_cons_self)
  rw [h.bitmap] at hhigh
  have hstore : ∀ inode : Inode, Effect.storeInode c.volume.superblock id inode =
      .ok (.store id inode.encode) := by
    intro inode
    rw [Effect.storeInode, h.checkRange (UInt32.le_iff_toNat_le.mpr hlow)
      (UInt32.lt_iff_toNat_lt.mpr hhigh)]
    rfl
  rw [Volume.create, htext, answer_bind_of_ok (a := path ++ [name]) rfl]
  simp only [List.getLast?_append, List.getLast?_singleton, Option.some_or]
  rw [answer_bind_of_ok hreach, answer_bind_of_ok (h.loadInode_answer hparent),
    answer_bind_of_ok (h.slots_answer_directory hparent hdirectory)]
  simp only [hfind, hunused, Option.isSome_none, Bool.false_eq_true, if_false]
  rw [answer_bind_of_ok (a := id :: blank) (by rw [answer_lift, hblocks])]
  simp only [List.getElem?_cons_zero, List.getElem?_cons_succ, hstore]
  cases type with
  | regular =>
    obtain rfl : blank = [] := List.length_eq_zero_iff.mp (Nat.succ.inj hoffers.length)
    rfl
  | directory =>
    obtain ⟨block, rfl⟩ : ∃ block, blank = [block] :=
      List.length_eq_one_iff.mp (Nat.succ.inj hoffers.length)
    rfl

theorem of_create {now permissions : UInt32} {text : String} {type : FileType} {owner : Owner}
    {update : Update UInt32}
    (hplan : (c.volume.create now text permissions type owner).answer c.disk = .ok update) :
    ∃ path name parent k id blank, Path.ofString text = .ok (path ++ [name]) ∧
      c.disk.walk rootId path = .ok parent ∧ (c.disk.inode parent).isDirectory = true ∧
      (c.disk.slots parent).find name = none ∧ (c.disk.slots parent).firstUnused = some k ∧
      c.volume.bitmap.firstFit reservedBlocks type.blockCount = .ok (id :: blank) ∧
      update = ⟨id, .store id (Inode.fresh type permissions owner now blank.head?).encode ::
        c.disk.attached parent k name id ::
          ((blank.map fun block => .store block Block.zero) ++
            Effect.allocate (id :: blank))⟩ := by
  have hgranted := hplan
  rw [Volume.create] at hplan
  obtain ⟨path, htext, hplan⟩ := answer_bind_eq_ok.mp hplan
  rw [answer_lift_refusal] at htext
  replace htext := of_ofRefusal htext
  rcases List.eq_nil_or_concat path with rfl | ⟨path, name, rfl⟩
  · cases hplan
  rw [List.concat_eq_append] at htext
  simp only [List.concat_eq_append, List.getLast?_append, List.getLast?_singleton,
    Option.some_or] at hplan
  obtain ⟨parent, hreach, hplan⟩ := answer_bind_eq_ok.mp hplan
  rw [h.reach_answer, List.length_append, List.length_singleton, Nat.add_sub_cancel,
    List.take_left] at hreach
  have hwalk := of_ofRefusal hreach
  have hparent := Disk.walk_reachable Disk.reachable_root hwalk
  rw [answer_bind_of_ok (h.loadInode_answer hparent)] at hplan
  have hslots := h.slots_answer hparent
  by_cases hdirectory : (c.disk.inode parent).isDirectory = true
  · rw [if_pos hdirectory] at hslots
    rw [answer_bind_of_ok hslots] at hplan
    cases hfind : (c.disk.slots parent).find name with
    | some l =>
      simp only [hfind, Option.isSome_some, if_true] at hplan
      cases hplan
    | none =>
      simp only [hfind, Option.isSome_none, Bool.false_eq_true, if_false] at hplan
      cases hunused : (c.disk.slots parent).firstUnused with
      | none =>
        simp only [hunused] at hplan
        cases hplan
      | some k =>
        simp only [hunused] at hplan
        obtain ⟨blocks, hblocks, -⟩ := answer_bind_eq_ok.mp hplan
        rw [answer_lift] at hblocks
        have hlength := (Bitmap.offers_of_firstFit h.fits hblocks).length
        obtain ⟨id, blank, rfl⟩ : ∃ id blank, blocks = id :: blank :=
          List.exists_cons_of_length_pos (by cases type <;> simp [hlength, FileType.blockCount])
        have hanswer := h.create_answer now permissions type owner htext hwalk hdirectory hfind
          hunused hblocks
        exact ⟨path, name, parent, k, id, blank, htext, hwalk, hdirectory, hfind, hunused, hblocks,
          Except.ok.inj (hgranted.symm.trans hanswer)⟩
  · rw [if_neg hdirectory] at hslots
    rw [answer_bind_of_error hslots] at hplan
    cases hplan

end Content.Mounted

end BlockFS
