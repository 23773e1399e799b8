import BlockFS.Proofs.Tree.Frame
import BlockFS.Proofs.Volume.DataPlans
import BlockFS.Proofs.Volume.Listing
import BlockFS.Proofs.Volume.NamePlans

/-!
Which blocks questions read. On a disk with a consistent tree a mounted volume asks for the blocks
of the tree only, whatever it is asked and whether or not it is refused. So it gives the same answer
on any two disks that hold the same tree.
-/

set_option autoImplicit false
set_option relaxedAutoImplicit false

namespace BlockFS

namespace Query

variable {α β : Type} {d d' : Disk} {p : UInt32 → Prop} {q : Query α}

/-- Asked of a disk, a query reads only blocks that are on the disk and have a property. -/
inductive Reads (d : Disk) (p : UInt32 → Prop) : Query α → Prop
  | done (a : α) : Reads d p (done a)
  | fail (failure : Failure) : Reads d p (fail failure)
  | read {id : UInt32} {next : Block → Query α} (hid : p id) (hsize : id.toNat < d.size)
      (hnext : Reads d p (next (d.block id))) : Reads d p (read id next)

theorem reads_pure (a : α) : Reads d p (pure a : Query α) := .done a

theorem reads_refuse (reason : Error) : Reads d p (refuse reason : Query α) := .fail _

theorem reads_block {id : UInt32} (h : p id) (hsize : id.toNat < d.size) :
    (block id).Reads d p :=
  .read h hsize (.done _)

theorem reads_lift (result : Except Failure α) : Reads d p (liftM result : Query α) := by
  cases result with
  | ok a => exact .done a
  | error failure => exact .fail failure

theorem reads_lift_refusal (result : Except Error α) : Reads d p (liftM result : Query α) := by
  cases result with
  | ok a => exact .done a
  | error reason => exact .fail _

theorem reads_bind {f : α → Query β} (h : q.Reads d p)
    (hf : ∀ a, q.answer d = .ok a → (f a).Reads d p) : (q >>= f).Reads d p := by
  show (q.bind f).Reads d p
  induction h with
  | done a => exact hf a rfl
  | fail failure => exact .fail failure
  | read hid hsize _ ih =>
    refine .read hid hsize (ih fun a ha => hf a ?_)
    rw [answer, if_neg (Nat.not_le.mpr hsize), ha]

theorem reads_map {f : α → β} (h : q.Reads d p) : Reads d p (do return f (← q)) :=
  reads_bind h fun _ _ => reads_pure _

theorem reads_attempt (h : q.Reads d p) : q.attempt.Reads d p := by
  induction h with
  | done a => exact .done _
  | fail failure => exact .done _
  | read hid hsize _ ih => exact .read hid hsize ih

theorem Reads.mono {p' : UInt32 → Prop} (h : q.Reads d p) (himp : ∀ id, p id → p' id) :
    q.Reads d p' := by
  induction h with
  | done a => exact .done a
  | fail failure => exact .fail failure
  | read hid hsize _ ih => exact .read (himp _ hid) hsize ih

/-- A query has the same answer on a disk that agrees on the blocks it reads. -/
theorem Reads.answer_eq (h : q.Reads d p)
    (hagree : ∀ id, p id → id.toNat < d'.size ∧ d'.block id = d.block id) :
    q.answer d' = q.answer d := by
  induction h with
  | done a => rfl
  | fail failure => rfl
  | @read id next hid hsize _ ih =>
    obtain ⟨hsize', hblock⟩ := hagree id hid
    rw [answer, answer, if_neg (Nat.not_le.mpr hsize), if_neg (Nat.not_le.mpr hsize'), hblock]
    exact ih

end Query

namespace Content.Mounted

open Query (reads_pure reads_refuse reads_block reads_lift reads_lift_refusal reads_bind reads_map
  reads_attempt)

variable {c : Content} {diskSize : UInt32} (h : c.Mounted diskSize)

include h

theorem structural_lt_size {block : UInt32} (hblock : c.disk.Structural block) :
    block.toNat < c.disk.size := by
  obtain ⟨place, hplace⟩ := hblock.referred
  exact h.lt_size (h.consistent.bounds h.low hplace).2

theorem reads_loadInode {id : UInt32} (hid : c.disk.Reachable id) :
    (c.volume.superblock.loadInode id).Reads c.disk c.disk.Structural :=
  reads_bind (reads_lift_refusal _) fun _ _ =>
    reads_map (reads_block hid.structural (h.structural_lt_size hid.structural))

theorem reads_slots {id : UInt32} (hid : c.disk.Reachable id) :
    (c.disk.inode id).slots.Reads c.disk c.disk.Structural := by
  rw [Inode.slots]
  by_cases hdirectory : (c.disk.inode id).isDirectory = true
  · rw [if_pos hdirectory]
    have hslots := Disk.structural_slotsBlock hid hdirectory
    exact reads_map (reads_block hslots (h.structural_lt_size hslots))
  · rw [if_neg hdirectory]
    exact reads_refuse _

theorem reads_listed {β : Type} {id : UInt32} (hid : c.disk.Reachable id) {f : Directory → Query β}
    (hf : (c.disk.inode id).isDirectory = true →
      (f (c.disk.slots id)).Reads c.disk c.disk.Structural) :
    ((c.disk.inode id).slots >>= f).Reads c.disk c.disk.Structural := by
  apply reads_bind (h.reads_slots hid)
  intro slots hslots
  rw [h.slots_answer hid] at hslots
  by_cases hdirectory : (c.disk.inode id).isDirectory = true
  · rw [if_pos hdirectory] at hslots
    rw [← Except.ok.inj hslots]
    exact hf hdirectory
  · rw [if_neg hdirectory] at hslots
    cases hslots

theorem reads_walk {id : UInt32} (hid : c.disk.Reachable id) (path : Path) :
    (c.volume.superblock.walk id path).Reads c.disk c.disk.Structural := by
  induction path generalizing id with
  | nil => exact reads_pure _
  | cons name rest ih =>
    rw [Superblock.walk]
    apply reads_bind (h.reads_loadInode hid)
    intro inode hinode
    obtain rfl := Except.ok.inj ((h.loadInode_answer hid).symm.trans hinode)
    rw [Inode.child, bind_assoc]
    apply h.reads_listed hid
    intro hdirectory
    cases hfind : (c.disk.slots id).find name with
    | none => exact reads_refuse _
    | some k => exact ih (hid.child (Disk.links_of_find hdirectory hfind))

theorem reads_locate (text : String) (depth : Nat) :
    (c.volume.locate text depth).Reads c.disk c.disk.Structural := by
  apply reads_bind (reads_lift_refusal _)
  intro path _
  apply reads_bind (h.reads_walk Disk.reachable_root _)
  intro id hid
  have hwalk := (h.walk_answer Disk.reachable_root _).symm.trans hid
  exact reads_map (h.reads_loadInode
    (Disk.walk_reachable Disk.reachable_root (Failure.of_ofRefusal hwalk)))

theorem reads_located {β : Type} (text : String) (depth : Nat)
    {f : UInt32 × Inode → Query β} (hf : ∀ id, c.disk.Reachable id →
      (f (id, c.disk.inode id)).Reads c.disk c.disk.Structural) :
    (c.volume.locate text depth >>= f).Reads c.disk c.disk.Structural := by
  apply reads_bind (h.reads_locate text depth)
  intro located hlocated
  obtain ⟨id, rfl, hresolve⟩ := h.of_locate hlocated
  exact hf id (Disk.resolve_reachable hresolve)

/-! ### Questions -/

theorem reads_lookup (text : String) :
    (c.volume.lookup text).Reads c.disk c.disk.Structural :=
  h.reads_located text 0 fun _ _ => reads_pure _

theorem reads_attributes (text : String) :
    (c.volume.attributes text).Reads c.disk c.disk.Structural :=
  h.reads_located text 0 fun _ _ => reads_pure _

theorem reads_describe {slots : List Slot} (hslots : ∀ slot ∈ slots, c.disk.Reachable slot.inode) :
    (c.volume.describe slots).Reads c.disk c.disk.Structural := by
  induction slots with
  | nil => exact reads_pure _
  | cons slot rest ih =>
    apply reads_bind (h.reads_loadInode (hslots slot List.mem_cons_self))
    intro inode _
    exact reads_map (ih fun other hother => hslots other (List.mem_cons_of_mem slot hother))

theorem reads_list (text : String) : (c.volume.list text).Reads c.disk c.disk.Structural := by
  apply h.reads_located text 0
  intro id hid
  dsimp only
  apply h.reads_listed hid
  intro hdirectory
  apply h.reads_describe
  intro slot hslot
  exact hid.child_of_entries hdirectory hslot

/-! ### Plans -/

theorem reads_detach (text : String) :
    (c.volume.detach text).Reads c.disk c.disk.Structural := by
  apply reads_bind (reads_lift_refusal _)
  intro path _
  cases path.getLast? with
  | none => exact reads_refuse _
  | some name =>
    apply h.reads_located text 1
    intro id hid
    dsimp only
    apply h.reads_listed hid
    intro _
    split
    · exact reads_pure _
    · exact reads_refuse _

theorem reads_deleteFile (text : String) :
    (c.volume.deleteFile text).Reads c.disk c.disk.Structural := by
  apply h.reads_located text 0
  intro id _
  dsimp only
  split
  · exact reads_refuse _
  · apply reads_bind (reads_lift _)
    intro _ _
    apply reads_bind (reads_lift _)
    intro _ _
    exact reads_map (h.reads_detach text)

theorem reads_deleteDirectory (text : String) :
    (c.volume.deleteDirectory text).Reads c.disk c.disk.Structural := by
  apply h.reads_located text 0
  intro id hid
  dsimp only
  split
  · exact reads_refuse _
  · apply h.reads_listed hid
    intro _
    split
    · exact reads_map (h.reads_detach text)
    · exact reads_refuse _

theorem reads_rename (source target : String) :
    (c.volume.rename source target).Reads c.disk c.disk.Structural := by
  apply h.reads_located source 0
  intro _ _
  dsimp only
  apply reads_bind (reads_attempt (h.reads_locate target 0))
  intro found _
  split
  · exact reads_refuse _
  · apply reads_bind (reads_lift_refusal _)
    intro sourcePath _
    apply reads_bind (reads_lift_refusal _)
    intro targetPath _
    cases sourcePath.getLast? with
    | none => exact reads_refuse _
    | some oldName =>
      cases targetPath.getLast? with
      | none => exact reads_refuse _
      | some newName =>
        dsimp only
        split
        · exact reads_refuse _
        · apply h.reads_located source 1
          intro id hid
          dsimp only
          apply h.reads_listed hid
          intro _
          split
          · exact reads_pure _
          · exact reads_refuse _
  · exact .fail _

theorem reads_create (now : UInt32) (text : String) (permissions : UInt32) (type : FileType)
    (owner : Owner) :
    (c.volume.create now text permissions type owner).Reads c.disk c.disk.Structural := by
  apply reads_bind (reads_lift_refusal _)
  intro path _
  cases path.getLast? with
  | none => exact reads_refuse _
  | some name =>
    apply reads_bind (h.reads_walk Disk.reachable_root _)
    intro id hwalk
    rw [h.walk_answer Disk.reachable_root] at hwalk
    have hid := Disk.walk_reachable Disk.reachable_root (Failure.of_ofRefusal hwalk)
    apply reads_bind (h.reads_loadInode hid)
    intro parent hparent
    obtain rfl := Except.ok.inj ((h.loadInode_answer hid).symm.trans hparent)
    apply h.reads_listed hid
    intro _
    dsimp only
    split
    · exact reads_refuse _
    · cases (c.disk.slots id).firstUnused with
      | none => exact reads_refuse _
      | some position =>
        apply reads_bind (reads_lift _)
        intro blocks _
        cases blocks[0]? with
        | none => exact .fail _
        | some child =>
          apply reads_bind (reads_lift_refusal _)
          intro store _
          split
          · exact reads_pure _
          · exact reads_pure _
          · exact .fail _

theorem reads_setPermissions (text : String) (permissions : UInt32) :
    (c.volume.setPermissions text permissions).Reads c.disk c.disk.Structural :=
  h.reads_located text 0 fun _ _ => reads_map (reads_lift_refusal _)

theorem reads_setModified (text : String) (mtime : UInt32) :
    (c.volume.setModified text mtime).Reads c.disk c.disk.Structural := by
  apply h.reads_located text 0
  intro id _
  dsimp only
  split
  · exact reads_map (reads_lift_refusal _)
  · exact reads_refuse _

theorem reads_truncate (text : String) (length : Int) :
    (c.volume.truncate text length).Reads c.disk c.disk.Structural := by
  rw [Volume.truncate]
  split
  · exact reads_refuse _
  · exact h.reads_located text 0 fun _ _ => reads_lift _

theorem reads_write (now : UInt32) (text : String) (offset : Nat) (bytes : List UInt8) :
    (c.volume.write now text offset bytes).Reads c.disk c.disk.Structural :=
  h.reads_located text 0 fun _ _ => reads_lift _

end Content.Mounted

end BlockFS
