import BlockFS.Proofs.Codec.Superblock
import BlockFS.Proofs.Operation.Change
import BlockFS.Proofs.Tree.Walk

/-!
What the questions of a mounted volume are answered on a disk that holds its tree: inodes and slots
of the tree are found, and a path leads where `Disk.walk` goes.
-/

set_option autoImplicit false
set_option relaxedAutoImplicit false

namespace BlockFS

/-- A volume of the given number of blocks is mounted on a disk with a consistent tree. -/
structure Content.Mounted (c : Content) (diskSize : UInt32) : Prop where
  superblock : c.volume.superblock = Superblock.ofSize diskSize
  bitmap : c.volume.bitmap.blocks = diskSize
  low : firstFreeId ≤ diskSize
  high : diskSize.toNat ≤ maxDiskBlocks
  device : diskSize.toNat ≤ c.disk.size
  stored : Superblock.decode (c.disk.block superblockId) = Superblock.ofSize diskSize
  consistent : c.disk.Consistent diskSize

namespace Disk

def resolve (d : Disk) (text : String) (depth : Nat) : Except Error UInt32 := do
  let path ← Path.ofString text
  d.walk rootId (path.take (path.length - depth))

theorem resolve_of_ofString {d : Disk} {text : String} {path : Path}
    (h : Path.ofString text = .ok path) (depth : Nat) :
    d.resolve text depth = d.walk rootId (path.take (path.length - depth)) := by
  rw [resolve, h]
  rfl

theorem resolve_of_error {d : Disk} {text : String} {reason : Error}
    (h : Path.ofString text = .error reason) (depth : Nat) :
    d.resolve text depth = .error reason := by
  rw [resolve, h]
  rfl

theorem resolve_zero {d : Disk} {text : String} {path : Path}
    (h : Path.ofString text = .ok path) : d.resolve text 0 = d.walk rootId path := by
  rw [resolve_of_ofString h, Nat.sub_zero, List.take_length]

theorem resolve_one {d : Disk} {text : String} {path : Path} {name : Name}
    (h : Path.ofString text = .ok (path ++ [name])) : d.resolve text 1 = d.walk rootId path := by
  rw [resolve_of_ofString h, List.length_append, List.length_singleton, Nat.add_sub_cancel,
    List.take_left]

theorem resolve_reachable {d : Disk} {text : String} {depth : Nat} {id : UInt32}
    (h : d.resolve text depth = .ok id) : d.Reachable id := by
  cases hpath : Path.ofString text with
  | error reason =>
    rw [resolve, hpath] at h
    cases h
  | ok path =>
    rw [resolve_of_ofString hpath] at h
    exact walk_reachable reachable_root h

theorem path_of_resolve {d : Disk} {text : String} {id : UInt32}
    (h : d.resolve text 0 = .ok id) :
    ∃ path, Path.ofString text = .ok path ∧ d.walk rootId path = .ok id := by
  cases hpath : Path.ofString text with
  | error reason => simp [resolve, hpath, bind, Except.bind] at h
  | ok path => exact ⟨path, rfl, by rwa [← resolve_zero hpath]⟩

end Disk

namespace Failure

variable {α β : Type}

theorem of_ofRefusal {result : Except Error α} {a : α} (h : ofRefusal result = .ok a) :
    result = .ok a := by
  cases result with
  | ok b => exact congrArg Except.ok (Except.ok.inj h)
  | error reason => cases h

theorem bind_eq_ok {x : Except Failure α} {f : α → Except Failure β} {b : β} :
    (x >>= f) = .ok b ↔ ∃ a, x = .ok a ∧ f a = .ok b := by
  cases x with
  | ok a => exact ⟨fun h => ⟨a, rfl, h⟩, fun ⟨_, ha, h⟩ => by cases ha; exact h⟩
  | error failure => exact ⟨nofun, fun ⟨_, h, _⟩ => nomatch h⟩

end Failure

namespace Query

variable {α β : Type} {disk : Disk} {q : Query α}

theorem answer_bind_of_ok {a : α} (h : q.answer disk = .ok a) (f : α → Query β) :
    (q >>= f).answer disk = (f a).answer disk := by
  rw [answer_bind, h]
  rfl

theorem answer_bind_of_error {failure : Failure} (h : q.answer disk = .error failure)
    (f : α → Query β) : (q >>= f).answer disk = .error failure := by
  rw [answer_bind, h]
  rfl

theorem answer_bind_eq_ok {f : α → Query β} {b : β} :
    (q >>= f).answer disk = .ok b ↔ ∃ a, q.answer disk = .ok a ∧ (f a).answer disk = .ok b := by
  rw [answer_bind]
  cases q.answer disk with
  | error failure => exact ⟨nofun, fun ⟨_, h, _⟩ => nomatch h⟩
  | ok a => exact ⟨fun h => ⟨a, rfl, h⟩, fun ⟨_, ha, h⟩ => by cases ha; exact h⟩

theorem answer_of_attempt {result : Except Failure α} (h : q.attempt.answer disk = .ok result) :
    q.answer disk = result := by
  induction q with
  | done a => exact Except.ok.inj h
  | fail failure => exact Except.ok.inj h
  | read id next ih =>
    rw [attempt, answer] at h
    split at h
    · cases h
    · rw [answer, if_neg ‹_›]
      exact ih _ h

theorem answer_attempt (h : q.answer disk ≠ .error (.refused .io)) :
    q.attempt.answer disk = .ok (q.answer disk) := by
  induction q with
  | done a => rfl
  | fail failure => rfl
  | read id next ih =>
    rw [answer] at h
    rw [attempt, answer, answer]
    split
    · rw [if_pos ‹_›] at h
      exact absurd rfl h
    · rw [if_neg ‹_›] at h
      exact ih _ h

end Query

/-! ### Any disk -/

section

open Query (answer_bind_of_ok answer_bind_of_error answer_bind_eq_ok answer_lift_refusal
  answer_block)

variable {disk : Disk} {id : UInt32}

theorem Query.block_eq_ok {contents : Block} : (block id).answer disk = .ok contents ↔
    id.toNat < disk.size ∧ contents = disk.block id := by
  rw [answer_block]
  split
  · exact ⟨nofun, fun h => absurd h.1 (Nat.not_lt.mpr ‹_›)⟩
  · exact ⟨fun h => ⟨Nat.lt_of_not_le ‹_›, (Except.ok.inj h).symm⟩, fun h => by rw [h.2]⟩

theorem Superblock.checkRange_eq_ok {sb : Superblock} :
    sb.checkRange id = .ok () ↔ rootId ≤ id ∧ id < sb.diskSize := by
  rw [checkRange]
  split
  · rename_i hout
    refine ⟨nofun, fun hin => ?_⟩
    exact (hout.elim (UInt32.not_lt.mpr hin.1) (UInt32.not_le.mpr hin.2)).elim
  · rename_i hin
    obtain ⟨hlow, hhigh⟩ := not_or.mp hin
    exact ⟨fun _ => ⟨UInt32.not_lt.mp hlow, UInt32.not_le.mp hhigh⟩, fun _ => rfl⟩

theorem Superblock.loadInode_eq_ok {sb : Superblock} {inode : Inode} :
    (sb.loadInode id).answer disk = .ok inode ↔
      (rootId ≤ id ∧ id < sb.diskSize ∧ id.toNat < disk.size) ∧ inode = disk.inode id := by
  rw [loadInode]
  constructor
  · intro h
    obtain ⟨⟨⟩, hrange, h⟩ := answer_bind_eq_ok.mp h
    rw [answer_lift_refusal] at hrange
    obtain ⟨hlow, hhigh⟩ := checkRange_eq_ok.mp (Failure.of_ofRefusal hrange)
    obtain ⟨block, hblock, h⟩ := answer_bind_eq_ok.mp h
    obtain ⟨hsize, rfl⟩ := Query.block_eq_ok.mp hblock
    exact ⟨⟨hlow, hhigh, hsize⟩, (Except.ok.inj h).symm⟩
  · rintro ⟨⟨hlow, hhigh, hsize⟩, rfl⟩
    rw [checkRange_eq_ok.mpr ⟨hlow, hhigh⟩, answer_bind_of_ok (a := ()) rfl,
      answer_bind_of_ok (Query.block_eq_ok.mpr ⟨hsize, rfl⟩)]
    rfl

theorem Disk.slots_eq_ok {slots : Directory} : (disk.inode id).slots.answer disk = .ok slots ↔
    ((disk.inode id).isDirectory = true ∧ (disk.inode id).slotsBlock.toNat < disk.size) ∧
      slots = disk.slots id := by
  rw [Inode.slots]
  split
  · constructor
    · intro h
      obtain ⟨block, hblock, h⟩ := answer_bind_eq_ok.mp h
      obtain ⟨hsize, rfl⟩ := Query.block_eq_ok.mp hblock
      exact ⟨⟨‹_›, hsize⟩, (Except.ok.inj h).symm⟩
    · rintro ⟨⟨-, hsize⟩, rfl⟩
      rw [answer_bind_of_ok (Query.block_eq_ok.mpr ⟨hsize, rfl⟩)]
      rfl
  · exact ⟨nofun, fun h => absurd h.1.1 ‹_›⟩

theorem Superblock.loadInode_of_lt {sb : Superblock} {diskSize : UInt32}
    (hsuper : sb = ofSize diskSize) (hdevice : diskSize.toNat ≤ disk.size) (hlow : rootId ≤ id)
    (hhigh : id < diskSize) : (sb.loadInode id).answer disk = .ok (disk.inode id) := by
  rw [loadInode_eq_ok, hsuper]
  exact ⟨⟨hlow, hhigh, Nat.lt_of_lt_of_le (UInt32.lt_iff_toNat_lt.mp hhigh) hdevice⟩, rfl⟩

theorem Superblock.walk_answer_cons {sb : Superblock}
    (hload : (sb.loadInode id).answer disk = .ok (disk.inode id))
    (hslots : (disk.inode id).slots.answer disk = .ok (disk.slots id)) (name : Name)
    (rest : Path) : (sb.walk id (name :: rest)).answer disk =
      match (disk.slots id).find name with
      | some k => (sb.walk ((disk.slots id).get k).inode rest).answer disk
      | none => .error (.refused .notFound) := by
  rw [walk, answer_bind_of_ok hload, Query.answer_bind, Inode.child, answer_bind_of_ok hslots]
  cases (disk.slots id).find name <;> rfl

theorem Volume.locate_of_walk {v : Volume} {text : String} {depth : Nat} {path : Path}
    (htext : Path.ofString text = .ok path)
    (hwalk : (v.superblock.walk rootId (path.take (path.length - depth))).answer disk = .ok id)
    (hload : (v.superblock.loadInode id).answer disk = .ok (disk.inode id)) :
    (v.locate text depth).answer disk = .ok (id, disk.inode id) := by
  rw [locate, htext, answer_bind_of_ok (a := path) rfl]
  exact (answer_bind_of_ok hwalk _).trans (answer_bind_of_ok hload _)

theorem Volume.locate_of_walk_error {v : Volume} {text : String} {depth : Nat} {path : Path}
    {failure : Failure} (htext : Path.ofString text = .ok path)
    (hwalk : (v.superblock.walk rootId (path.take (path.length - depth))).answer disk =
      .error failure) : (v.locate text depth).answer disk = .error failure := by
  rw [locate, htext, answer_bind_of_ok (a := path) rfl]
  exact answer_bind_of_error hwalk _

theorem Volume.of_locate {v : Volume} {text : String} {depth : Nat} {located : UInt32 × Inode}
    (h : (v.locate text depth).answer disk = .ok located) :
    ∃ id, located = (id, disk.inode id) ∧
      rootId ≤ id ∧ id < v.superblock.diskSize ∧ id.toNat < disk.size := by
  rw [locate] at h
  obtain ⟨path, -, h⟩ := answer_bind_eq_ok.mp h
  obtain ⟨id, -, h⟩ := answer_bind_eq_ok.mp h
  obtain ⟨inode, hinode, h⟩ := answer_bind_eq_ok.mp h
  obtain ⟨hbounds, rfl⟩ := Superblock.loadInode_eq_ok.mp hinode
  exact ⟨id, (Except.ok.inj h).symm, hbounds⟩

end

/-! ### Disks with a consistent tree -/

namespace Content.Mounted

open Query (answer_bind_of_ok answer_bind_of_error)

variable {c : Content} {diskSize : UInt32} (h : c.Mounted diskSize)

include h

theorem fits : c.volume.bitmap.Fits := by
  rw [Bitmap.Fits, h.bitmap]
  exact h.high

theorem lt_size {id : UInt32} (hid : id < diskSize) : id.toNat < c.disk.size :=
  Nat.lt_of_lt_of_le (UInt32.lt_iff_toNat_lt.mp hid) h.device

theorem checkRange {id : UInt32} (hlow : rootId ≤ id) (hhigh : id < diskSize) :
    c.volume.superblock.checkRange id = .ok () := by
  rw [Superblock.checkRange_eq_ok, h.superblock]
  exact ⟨hlow, hhigh⟩

theorem checkRange_reachable {id : UInt32} (hid : c.disk.Reachable id) :
    c.volume.superblock.checkRange id = .ok () := by
  obtain ⟨hlow, hhigh⟩ := h.consistent.reachable_bounds h.low hid
  exact h.checkRange hlow hhigh

theorem storeInode {id : UInt32} (hid : c.disk.Reachable id) (inode : Inode) :
    Effect.storeInode c.volume.superblock id inode = .ok (.store id inode.encode) := by
  rw [Effect.storeInode, h.checkRange_reachable hid]
  rfl

theorem loadInode_answer {id : UInt32} (hid : c.disk.Reachable id) :
    (c.volume.superblock.loadInode id).answer c.disk = .ok (c.disk.inode id) := by
  obtain ⟨hlow, hhigh⟩ := h.consistent.reachable_bounds h.low hid
  exact Superblock.loadInode_of_lt h.superblock h.device hlow hhigh

theorem slots_answer_directory {id : UInt32} (hid : c.disk.Reachable id)
    (hdirectory : (c.disk.inode id).isDirectory = true) :
    (c.disk.inode id).slots.answer c.disk = .ok (c.disk.slots id) := by
  have hhigh := (h.consistent.bounds h.low (Disk.refers_slotsBlock hid hdirectory)).2
  exact Disk.slots_eq_ok.mpr ⟨⟨hdirectory, h.lt_size hhigh⟩, rfl⟩

theorem slots_answer {id : UInt32} (hid : c.disk.Reachable id) :
    (c.disk.inode id).slots.answer c.disk =
      if (c.disk.inode id).isDirectory then .ok (c.disk.slots id)
      else .error (.refused .notADirectory) := by
  split
  · exact h.slots_answer_directory hid ‹_›
  · rw [Inode.slots, if_neg ‹_›]
    rfl

theorem walk_answer {id : UInt32} (hid : c.disk.Reachable id) (path : Path) :
    (c.volume.superblock.walk id path).answer c.disk =
      Failure.ofRefusal (c.disk.walk id path) := by
  induction path generalizing id with
  | nil => rfl
  | cons name rest ih =>
    rw [Disk.walk]
    by_cases hdirectory : (c.disk.inode id).isDirectory = true
    · rw [if_pos hdirectory, Superblock.walk_answer_cons (h.loadInode_answer hid)
        (h.slots_answer_directory hid hdirectory)]
      cases hfind : (c.disk.slots id).find name with
      | none => rfl
      | some k => exact ih (hid.child (Disk.links_of_find hdirectory hfind))
    · have hslots := h.slots_answer hid
      rw [if_neg hdirectory] at hslots
      rw [if_neg hdirectory, Superblock.walk, answer_bind_of_ok (h.loadInode_answer hid),
        Query.answer_bind, Inode.child, answer_bind_of_error hslots]
      rfl

theorem reach_answer (path : Path) (depth : Nat) :
    (c.volume.superblock.reach path depth).answer c.disk =
      Failure.ofRefusal (c.disk.walk rootId (path.take (path.length - depth))) :=
  h.walk_answer Disk.reachable_root _

theorem locate_answer (text : String) (depth : Nat) :
    (c.volume.locate text depth).answer c.disk =
      Failure.ofRefusal ((c.disk.resolve text depth).map fun id => (id, c.disk.inode id)) := by
  cases hpath : Path.ofString text with
  | error reason =>
    rw [Volume.locate, Disk.resolve, hpath]
    rfl
  | ok path =>
    rw [Disk.resolve_of_ofString hpath]
    have hreach := h.reach_answer path depth
    cases hwalk : c.disk.walk rootId (path.take (path.length - depth)) with
    | error reason =>
      rw [hwalk] at hreach
      exact Volume.locate_of_walk_error hpath hreach
    | ok id =>
      rw [hwalk] at hreach
      have hid := Disk.walk_reachable Disk.reachable_root hwalk
      exact Volume.locate_of_walk hpath hreach (h.loadInode_answer hid)

theorem locate_answer_ok {text : String} {depth : Nat} {id : UInt32}
    (hresolve : c.disk.resolve text depth = .ok id) :
    (c.volume.locate text depth).answer c.disk = .ok (id, c.disk.inode id) := by
  rw [h.locate_answer, hresolve]
  rfl

theorem locate_answer_error {text : String} {depth : Nat} {reason : Error}
    (hresolve : c.disk.resolve text depth = .error reason) :
    (c.volume.locate text depth).answer c.disk = .error (.refused reason) := by
  rw [h.locate_answer, hresolve]
  rfl

end Content.Mounted

end BlockFS
