import BlockFS.Proofs.Invariant.Writes
import BlockFS.Proofs.Operation.Run

/-!
What the operations on files in the tree decide to change. `Plan` says it in terms of the tree and
of the paths a call is given. As far as blocks in use go, each plan is one of four moves: nothing, a
write that keeps them, a write after which some blocks are given back, and the extension of a file.
Only a new file is none of them.
-/

set_option autoImplicit false
set_option relaxedAutoImplicit false

namespace BlockFS

theorem Inode.withPermissions_sameShape (i : Inode) (permissions : UInt32) :
    i.SameShape (i.withPermissions permissions) :=
  ⟨i.withPermissions_mode permissions, rfl, rfl⟩

theorem Inode.modified_sameShape (i : Inode) (mtime : UInt32) :
    i.SameShape { i with mtime := mtime } :=
  ⟨rfl, rfl, rfl⟩

theorem Effect.bookkeeping_growth {blocks : List UInt32} {effect : Effect}
    (h : effect ∈ Effect.growth blocks) : effect.Bookkeeping := by
  rw [growth] at h
  split at h
  · cases h
  · exact bookkeeping_allocate h

def Request.IsCreate : Request → Prop
  | .create _ _ _ _ => True
  | _ => False

/-- The paths that a call may change something at, as they are spelled in its arguments. -/
def Request.targets : Request → List String
  | .create path _ _ _ => [path]
  | .deleteFile path => [path]
  | .deleteDirectory path => [path]
  | .rename source target => [source, target]
  | .setPermissions path _ => [path]
  | .setModified path _ => [path]
  | .truncate path _ => [path]
  | .write path _ _ => [path]
  | _ => []

abbrev Path.Spelled (texts : List String) (paths : List Path) : Prop :=
  List.Forall₂ (fun text path => Path.ofString text = .ok path) texts paths

namespace Content

variable {c : Content} {diskSize : UInt32}

/-- What an operation on files in the tree can decide to do at some paths. -/
inductive Plan (c : Content) (diskSize : UInt32) : List Path → List Effect → Prop
  | nothing (paths : List Path) : Plan c diskSize paths []
  | restamp {path : Path} {id : UInt32} {j : Inode} (hwalk : c.disk.walk rootId path = .ok id)
      (hshape : (c.disk.inode id).SameShape j) : Plan c diskSize [path] [.store id j.encode]
  | shrink {path : Path} {id : UInt32} {length : Nat} (hwalk : c.disk.walk rootId path = .ok id)
      (hregular : (c.disk.inode id).isRegular = true) (hlength : length ≤ (c.disk.inode id).length) :
      Plan c diskSize [path] (.store id ((c.disk.inode id).shrunk length).encode ::
        Effect.deallocate ((c.disk.inode id).dropped length))
  | extend {path : Path} {id now : UInt32} {offset : Nat} {bytes : List UInt8}
      {blocks : List UInt32} (hwalk : c.disk.walk rootId path = .ok id)
      (hoffset : offset ≤ (c.disk.inode id).length)
      (hextends : Extends c diskSize id (offset + bytes.length) blocks)
      (hoffers : c.volume.bitmap.Offers
        (blocksToHold (offset + bytes.length) - (c.disk.inode id).blockCount) blocks) :
      Plan c diskSize [path] (Effect.growth blocks ++
        .store id ((c.disk.inode id).written now (offset + bytes.length) blocks).encode ::
          ((c.disk.inode id).written now (offset + bytes.length) blocks).patches offset bytes)
  | detach {path : Path} {name : Name} {parent child : UInt32} {k : Fin slotCount}
      (hentry : c.disk.Entry path name parent k child)
      (hleaf : ∀ j other, ¬ c.disk.Links child j other) : Plan c diskSize [path ++ [name]]
        (c.disk.detached parent k :: Effect.deallocate (c.disk.released child))
  | rename {path : Path} {oldName newName : Name} {parent child : UInt32} {k : Fin slotCount}
      (hentry : c.disk.Entry path oldName parent k child) (hname : Path.IsComponent newName)
      (hfind : (c.disk.slots parent).find newName = none) :
      Plan c diskSize [path ++ [oldName], path ++ [newName]] [c.disk.renamed parent k newName]

/-- What plans do to the blocks in use. -/
inductive Move (c : Content) (diskSize : UInt32) : List Effect → Prop
  | nothing : Move c diskSize []
  | rewrite {effect : Effect} (hwritten : Written c diskSize [effect])
      (huse : ∀ block, (effect.change c).disk.InUse block ↔ c.disk.InUse block) :
      Move c diskSize [effect]
  | release {effect : Effect} {blocks : List UInt32} (hwritten : Written c diskSize [effect])
      (hnodup : blocks.Nodup) (hrefers : ∀ id ∈ blocks, ∃ place, c.disk.Refers place id)
      (huse : ∀ block, (effect.change c).disk.InUse block ↔ c.disk.InUse block ∧ block ∉ blocks) :
      Move c diskSize (effect :: Effect.deallocate blocks)
  | extend {id now : UInt32} {offset : Nat} {bytes : List UInt8} {blocks : List UInt32}
      (hextends : Extends c diskSize id (offset + bytes.length) blocks)
      (hoffers : c.volume.bitmap.Offers
        (blocksToHold (offset + bytes.length) - (c.disk.inode id).blockCount) blocks) :
      Move c diskSize (Effect.growth blocks ++
        .store id ((c.disk.inode id).written now (offset + bytes.length) blocks).encode ::
          ((c.disk.inode id).written now (offset + bytes.length) blocks).patches offset bytes)

namespace Mounted

variable (h : c.Mounted diskSize)

include h

theorem move_restamp {id : UInt32} (hid : c.disk.Reachable id) {j : Inode}
    (hshape : (c.disk.inode id).SameShape j) : Move c diskSize [.store id j.encode] :=
  .rewrite (h.written_sameShape hid hshape) fun _ =>
    h.consistent.inUse_of_sameShape h.low (Disk.rewrites_sameShape hid hshape) hshape

theorem move_shrink {id : UInt32} (hid : c.disk.Reachable id) {length : Nat}
    (hregular : (c.disk.inode id).isRegular = true) (hlength : length ≤ (c.disk.inode id).length) :
    Move c diskSize (.store id ((c.disk.inode id).shrunk length).encode ::
      Effect.deallocate ((c.disk.inode id).dropped length)) := by
  have hrewrites := Disk.rewrites_file (j := (c.disk.inode id).shrunk length) hid hregular rfl
  refine .release (h.written_shrunk hid hregular hlength)
    ((h.consistent.nodup_ownBlocks hid).sublist (List.drop_sublist _ _)) ?_
    fun _ => h.consistent.inUse_of_shrunk hrewrites hregular hlength h.low
  intro block hblock
  obtain ⟨k, -, hk, rfl⟩ := Inode.mem_dropped.mp hblock
  exact ⟨_, Disk.refers_pointer hid (by rwa [Inode.held_of_isRegular hregular])⟩

theorem move_detach {parent child : UInt32} {k : Fin slotCount}
    (hparent : c.disk.Reachable parent) (hlink : c.disk.Links parent k child)
    (hleaf : ∀ j other, ¬ c.disk.Links child j other) :
    Move c diskSize (c.disk.detached parent k :: Effect.deallocate (c.disk.released child)) :=
  .release (h.written_detached hparent hlink hleaf)
    (h.consistent.nodup_released (hparent.child hlink))
    (fun _ hblock => Disk.refers_of_mem_released (hparent.child hlink) hblock)
    fun _ => (Disk.releases_set hparent hlink hleaf).inUse_iff h.consistent h.low

theorem move_plan {paths : List Path} {effects : List Effect}
    (hplan : Plan c diskSize paths effects) :
    Move c diskSize effects := by
  cases hplan with
  | nothing => exact .nothing
  | restamp hwalk hshape =>
    exact h.move_restamp (Disk.walk_reachable Disk.reachable_root hwalk) hshape
  | shrink hwalk hregular hlength =>
    exact h.move_shrink (Disk.walk_reachable Disk.reachable_root hwalk) hregular hlength
  | extend _ _ hextends hoffers => exact .extend hextends hoffers
  | detach hentry hleaf => exact h.move_detach hentry.reachable hentry.links hleaf
  | rename hentry hname hfind =>
    exact .rewrite (h.written_renamed hentry.reachable hentry.links hname hfind)
      fun _ => (Disk.renames_set hentry.reachable hentry.links hname hfind).inUse_iff h.consistent

/-! ### Which plan a call decides on -/

theorem plan_deleteFile {text : String} {update : Update Unit}
    (hplan : (c.volume.deleteFile text).answer c.disk = .ok update) :
    ∃ paths, Path.Spelled [text] paths ∧ Plan c diskSize paths update.effects := by
  obtain ⟨path, name, parent, k, id, htext, hentry, hfile, rfl⟩ := h.deleteFile_eq_ok.mp hplan
  exact ⟨_, .cons htext .nil, .detach hentry (Disk.leaf_of_file hfile)⟩

theorem plan_deleteDirectory {text : String} {update : Update Unit}
    (hplan : (c.volume.deleteDirectory text).answer c.disk = .ok update) :
    ∃ paths, Path.Spelled [text] paths ∧ Plan c diskSize paths update.effects := by
  obtain ⟨path, name, parent, k, id, htext, hentry, -, hempty, rfl⟩ :=
    h.deleteDirectory_eq_ok.mp hplan
  exact ⟨_, .cons htext .nil, .detach hentry (Disk.leaf_of_unused hempty)⟩

theorem plan_rename {source target : String} {update : Update Unit}
    (hplan : (c.volume.rename source target).answer c.disk = .ok update) :
    ∃ paths, Path.Spelled [source, target] paths ∧ Plan c diskSize paths update.effects := by
  obtain ⟨path, oldName, newName, parent, k, child, hsource, htarget, hentry, hfind, rfl⟩ :=
    h.of_rename hplan
  have hname : Path.IsComponent newName := Path.isComponent_of_ofString htarget (by simp)
  exact ⟨_, .cons hsource (.cons htarget .nil), .rename hentry hname hfind⟩

theorem plan_setPermissions {text : String} {permissions : UInt32} {update : Update Unit}
    (hplan : (c.volume.setPermissions text permissions).answer c.disk = .ok update) :
    ∃ paths, Path.Spelled [text] paths ∧ Plan c diskSize paths update.effects := by
  obtain ⟨id, hresolve, rfl⟩ := h.setPermissions_eq_ok.mp hplan
  obtain ⟨path, htext, hwalk⟩ := Disk.path_of_resolve hresolve
  exact ⟨_, .cons htext .nil, .restamp hwalk (Inode.withPermissions_sameShape _ permissions)⟩

theorem plan_setModified {text : String} {mtime : UInt32} {update : Update Unit}
    (hplan : (c.volume.setModified text mtime).answer c.disk = .ok update) :
    ∃ paths, Path.Spelled [text] paths ∧ Plan c diskSize paths update.effects := by
  obtain ⟨id, hresolve, -, rfl⟩ := h.setModified_eq_ok.mp hplan
  obtain ⟨path, htext, hwalk⟩ := Disk.path_of_resolve hresolve
  exact ⟨_, .cons htext .nil, .restamp hwalk (Inode.modified_sameShape _ mtime)⟩

theorem plan_truncate {text : String} {length : Int} {update : Update Unit}
    (hplan : (c.volume.truncate text length).answer c.disk = .ok update) :
    ∃ paths, Path.Spelled [text] paths ∧ Plan c diskSize paths update.effects := by
  obtain ⟨id, hresolve, hregular, -, hlength, rfl⟩ := h.of_truncate hplan
  obtain ⟨path, htext, hwalk⟩ := Disk.path_of_resolve hresolve
  exact ⟨_, .cons htext .nil, .shrink hwalk hregular hlength⟩

end Mounted

namespace Safe

variable (h : c.Safe diskSize)

include h

/-- What a plan to write found and decided on. -/
theorem of_write {now : UInt32} {text : String} {offset : Nat} {bytes : List UInt8}
    {update : Update Nat}
    (hplan : (c.volume.write now text offset bytes).answer c.disk = .ok update) :
    ∃ id, c.disk.resolve text 0 = .ok id ∧ (c.disk.inode id).isRegular = true ∧
      offset ≤ (c.disk.inode id).length ∧ ((bytes = [] ∧ update = ⟨0, []⟩) ∨
        bytes ≠ [] ∧ ∃ blocks, c.volume.bitmap.firstFit reservedBlocks
            (blocksToHold (offset + bytes.length) - (c.disk.inode id).blockCount) = .ok blocks ∧
          Extends c diskSize id (offset + bytes.length) blocks ∧
          update = ⟨bytes.length, Effect.growth blocks ++
            .store id ((c.disk.inode id).written now (offset + bytes.length) blocks).encode ::
              ((c.disk.inode id).written now (offset + bytes.length) blocks).patches offset
                bytes⟩) := by
  obtain ⟨id, hresolve, hfile⟩ := h.mounted.of_write hplan
  have hid := Disk.resolve_reachable hresolve
  obtain ⟨hregular, hoffset, hcases⟩ :=
    Volume.found_of_writeFile h.mounted.fits (h.mounted.consistent.formed hid) hfile
  refine ⟨id, hresolve, hregular, hoffset, hcases.imp_right ?_⟩
  rintro ⟨hbytes, hlimit, blocks, hfit, hupdate⟩
  have hoffers := Bitmap.offers_of_firstFit h.mounted.fits hfit
  exact ⟨hbytes, blocks, hfit,
    ⟨hid, hregular, hlimit, hoffers.length, hoffers.nodup, h.spare hoffers⟩, hupdate⟩

theorem plan_write {now : UInt32} {text : String} {offset : Nat} {bytes : List UInt8}
    {update : Update Nat}
    (hplan : (c.volume.write now text offset bytes).answer c.disk = .ok update) :
    ∃ paths, Path.Spelled [text] paths ∧ Plan c diskSize paths update.effects := by
  obtain ⟨id, hresolve, -, hoffset, ⟨-, rfl⟩ | ⟨-, blocks, hfit, hextends, rfl⟩⟩ :=
    h.of_write hplan
  all_goals obtain ⟨path, htext, hwalk⟩ := Disk.path_of_resolve hresolve
  · exact ⟨_, .cons htext .nil, .nothing _⟩
  · exact ⟨_, .cons htext .nil, .extend hwalk hoffset hextends
      (Bitmap.offers_of_firstFit h.mounted.fits hfit)⟩

/-- Whatever a call other than one that makes a file decides to change is a plan for its
targets. -/
theorem plan_request {now : UInt32} {request : Request} (hrequest : ¬ request.IsCreate)
    {effects : List Effect}
    (hplan : (request.effects c.volume now).answer c.disk = .ok effects) :
    ∃ paths, Path.Spelled request.targets paths ∧ Plan c diskSize paths effects := by
  cases request with
  | create path permissions type owner => exact absurd trivial hrequest
  | deleteFile path =>
    obtain ⟨update, hupdate, rfl⟩ := Query.answer_map_eq_ok.mp hplan
    exact h.mounted.plan_deleteFile hupdate
  | deleteDirectory path =>
    obtain ⟨update, hupdate, rfl⟩ := Query.answer_map_eq_ok.mp hplan
    exact h.mounted.plan_deleteDirectory hupdate
  | rename source target =>
    obtain ⟨update, hupdate, rfl⟩ := Query.answer_map_eq_ok.mp hplan
    exact h.mounted.plan_rename hupdate
  | setPermissions path mode =>
    obtain ⟨update, hupdate, rfl⟩ := Query.answer_map_eq_ok.mp hplan
    exact h.mounted.plan_setPermissions hupdate
  | setModified path mtime =>
    obtain ⟨update, hupdate, rfl⟩ := Query.answer_map_eq_ok.mp hplan
    exact h.mounted.plan_setModified hupdate
  | truncate path length =>
    obtain ⟨update, hupdate, rfl⟩ := Query.answer_map_eq_ok.mp hplan
    exact h.mounted.plan_truncate hupdate
  | write path offset bytes =>
    obtain ⟨update, hupdate, rfl⟩ := Query.answer_map_eq_ok.mp hplan
    exact h.plan_write hupdate
  | _ =>
    obtain rfl := Except.ok.inj hplan
    exact ⟨[], .nil, .nothing []⟩

theorem move_request {now : UInt32} {request : Request} (hrequest : ¬ request.IsCreate)
    {effects : List Effect}
    (hplan : (request.effects c.volume now).answer c.disk = .ok effects) :
    Move c diskSize effects := by
  obtain ⟨paths, -, hplan⟩ := h.plan_request hrequest hplan
  exact h.mounted.move_plan hplan

end Safe

end Content

end BlockFS
