import BlockFS.Proofs.Volume.NamePlans

/-!
Two ways to resolve a path: along all of its names at once, or to the directory before its last name
and then through the slot of that name. They ask the same questions in the same order, so on no disk
can they come to different slots, whatever its directories hold.
-/

set_option autoImplicit false
set_option relaxedAutoImplicit false

namespace BlockFS

open Query (answer_bind_of_ok answer_bind_eq_ok)

theorem Inode.child_of_not_directory {i : Inode} (h : ¬ i.isDirectory = true) (name : Name) :
    i.child name = Query.refuse .notADirectory := by
  rw [child, slots, if_neg h]
  rfl

namespace Superblock

variable {sb : Superblock} {disk : Disk} {path : Path} {name : Name}

def follow (sb : Superblock) (parent : UInt32) (name : Name) : Query UInt32 := do
  let inode ← sb.loadInode parent
  if inode.isDirectory then
    let slot ← inode.child name
    return slot.inode
  else Query.refuse .notADirectory

theorem walk_singleton (sb : Superblock) (parent : UInt32) (name : Name) :
    sb.walk parent [name] = sb.follow parent name := by
  rw [walk, follow]
  congr 1
  funext inode
  by_cases hdirectory : inode.isDirectory = true
  · rw [if_pos hdirectory]
    rfl
  · rw [if_neg hdirectory, Inode.child_of_not_directory hdirectory]
    rfl

theorem walk_append (sb : Superblock) (id : UInt32) (path rest : Path) :
    sb.walk id (path ++ rest) = sb.walk id path >>= fun target => sb.walk target rest := by
  induction path generalizing id with
  | nil => rfl
  | cons name path ih => simp only [List.cons_append, walk, bind_assoc, ih]

/-- All names of a path lead where its last name does from the directory that the others lead to. -/
theorem reach_concat (sb : Superblock) (path : Path) (name : Name) :
    sb.reach (path ++ [name]) 0 =
      sb.reach (path ++ [name]) 1 >>= fun parent => sb.follow parent name := by
  have hparent : (path ++ [name]).take ((path ++ [name]).length - 1) = path := by
    rw [List.length_append, List.length_singleton, Nat.add_sub_cancel, List.take_left]
  rw [reach, reach, Nat.sub_zero, List.take_length, hparent, walk_append]
  simp only [walk_singleton]

theorem follow_eq_ok {parent id : UInt32} : (sb.follow parent name).answer disk = .ok id ↔
    (sb.loadInode parent).answer disk = .ok (disk.inode parent) ∧
      (disk.inode parent).slots.answer disk = .ok (disk.slots parent) ∧
      ∃ k, (disk.slots parent).find name = some k ∧ ((disk.slots parent).get k).inode = id := by
  rw [← walk_singleton]
  constructor
  · intro h
    rw [walk] at h
    obtain ⟨inode, hload, h⟩ := answer_bind_eq_ok.mp h
    obtain ⟨-, rfl⟩ := loadInode_eq_ok.mp hload
    obtain ⟨slot, hchild, h⟩ := answer_bind_eq_ok.mp h
    rw [Inode.child] at hchild
    obtain ⟨slots, hslots, hchild⟩ := answer_bind_eq_ok.mp hchild
    obtain ⟨-, rfl⟩ := Disk.slots_eq_ok.mp hslots
    refine ⟨hload, hslots, ?_⟩
    cases hfind : (disk.slots parent).find name with
    | none =>
      rw [hfind] at hchild
      cases hchild
    | some k =>
      rw [hfind] at hchild
      obtain rfl := Except.ok.inj hchild
      exact ⟨k, rfl, Except.ok.inj h⟩
  · rintro ⟨hload, hslots, k, hfind, hinode⟩
    rw [walk_answer_cons hload hslots, hfind]
    exact congrArg Except.ok hinode

end Superblock

namespace Volume

variable {v : Volume} {disk : Disk} {text : String} {path : Path} {name : Name}

theorem reach_of_locate {depth : Nat} {located : UInt32 × Inode}
    (htext : Path.ofString text = .ok path)
    (hlocate : (v.locate text depth).answer disk = .ok located) :
    (v.superblock.reach path depth).answer disk = .ok located.1 := by
  rw [locate, htext] at hlocate
  obtain ⟨path', hpath, hlocate⟩ := answer_bind_eq_ok.mp hlocate
  obtain rfl := Except.ok.inj hpath
  obtain ⟨id, hreach, hlocate⟩ := answer_bind_eq_ok.mp hlocate
  obtain ⟨inode, -, hlocate⟩ := answer_bind_eq_ok.mp hlocate
  obtain rfl := Except.ok.inj hlocate
  exact hreach

theorem endsIn_of_locate {located : UInt32 × Inode}
    (htext : Path.ofString text = .ok (path ++ [name]))
    (hlocate : (v.locate text 0).answer disk = .ok located) :
    ∃ parent k, (v.superblock.reach (path ++ [name]) 1).answer disk = .ok parent ∧
      v.EndsIn disk text parent k ∧ (disk.slots parent).find name = some k ∧
      ((disk.slots parent).get k).inode = located.1 := by
  have hreach := reach_of_locate htext hlocate
  rw [Superblock.reach_concat] at hreach
  obtain ⟨parent, hparent, hfollow⟩ := answer_bind_eq_ok.mp hreach
  obtain ⟨hload, hslots, k, hfind, hinode⟩ := Superblock.follow_eq_ok.mp hfollow
  obtain ⟨⟨hdirectory, hinside⟩, -⟩ := Disk.slots_eq_ok.mp hslots
  have hlocated : (v.locate text 1).answer disk = .ok (parent, disk.inode parent) := by
    rw [locate, htext, answer_bind_of_ok (a := path ++ [name]) rfl, answer_bind_of_ok hparent,
      answer_bind_of_ok hload]
    rfl
  exact ⟨parent, k, hparent, ⟨hlocated, hdirectory, hinside, path, name, htext, hfind⟩, hfind,
    hinode⟩

end Volume

end BlockFS
