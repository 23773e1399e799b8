import BlockFS.Proofs.Data.File
import BlockFS.Proofs.Invariant.Sound
import BlockFS.Proofs.Tree.Paths

/-!
Where calls change the tree. A call changes an inode at one of its paths, or the slot that one of
them ends in; and of all the blocks of the disk it writes the bitmap, spare ones, and those of a
single inode.
-/

set_option autoImplicit false
set_option relaxedAutoImplicit false

namespace BlockFS

/-- The second disk differs from the first, as far as the tree goes, at some paths: in the inode
and the data that one of them leads to, or in a slot of a directory and only in names that stand at
the end of one of them. -/
inductive Disk.Alters (d d' : Disk) (paths : List Path) : Prop
  | inode {path : Path} {id : UInt32} (hpath : path ∈ paths) (hwalk : d.walk rootId path = .ok id)
      (hentries : SameEntries d d') (htouches : TouchesOnly d d' id)
  | slot {above : Path} {directory : UInt32} {k : Fin slotCount} {slot : Slot}
      (hwalk : d.walk rootId above = .ok directory)
      (hrelists : Relists d d' directory ((d.slots directory).put k slot))
      (hcomponents : ∀ name ∈ above, Path.IsComponent name)
      (hold : ((d.slots directory).get k).used = true →
        above ++ [((d.slots directory).get k).storedName] ∈ paths)
      (hnew : slot.used = true → above ++ [slot.storedName] ∈ paths)
      (htouches : TouchesOnly d d' directory)

namespace Content

variable {c : Content} {diskSize : UInt32} {paths : List Path} {effects : List Effect}

/-- Effects change the tree at some paths at most, and neither the superblock nor what is behind the
file system. -/
structure AltersAt (c : Content) (diskSize : UInt32) (paths : List Path) (effects : List Effect) :
    Prop where
  tree : effects = [] ∨ Disk.Alters c.disk (c.after effects).disk paths
  outside : ∀ block, block = superblockId ∨ diskSize ≤ block →
    (c.after effects).disk.block block = c.disk.block block

namespace Mounted

variable (h : c.Mounted diskSize)

include h

omit h in
theorem altersAt_nothing (paths : List Path) : AltersAt c diskSize paths [] :=
  ⟨.inl rfl, fun _ _ => rfl⟩

theorem altersAt_inode {path : Path} {id : UInt32} (hpath : path ∈ paths)
    (hwalk : c.disk.walk rootId path = .ok id)
    (hentries : Disk.SameEntries c.disk (c.after effects).disk)
    (hwithin : ∀ effect ∈ effects, c.Within diskSize id effect) :
    AltersAt c diskSize paths effects :=
  ⟨.inr (.inode hpath hwalk hentries (h.touchesOnly hwithin)),
    fun _ hblock => h.block_outside hwithin hblock⟩

theorem relists_bookkeeping {directory : UInt32} {slots : Directory} {first second : List Effect}
    (hrelists : Disk.Relists c.disk (c.after first).disk directory slots)
    (hbook : ∀ effect ∈ second, effect.Bookkeeping) :
    Disk.Relists c.disk (c.after (first ++ second)).disk directory slots := by
  apply hrelists.of_agree
  intro block hblock
  rw [after_append, block_after]
  intro effect heffect htarget
  exact h.not_structural (.inr (hbook effect heffect block htarget)) hblock

theorem altersAt_restamp {path : Path} {id : UInt32} (hwalk : c.disk.walk rootId path = .ok id)
    {j : Inode} (hshape : (c.disk.inode id).SameShape j) :
    AltersAt c diskSize [path] [.store id j.encode] := by
  have hid := Disk.walk_reachable Disk.reachable_root hwalk
  refine h.altersAt_inode List.mem_cons_self hwalk
    ((Disk.rewrites_sameShape hid hshape).sameEntries h.consistent) ?_
  intro effect heffect
  rw [List.mem_singleton.mp heffect]
  exact within_inode hid

theorem altersAt_shrink {path : Path} {id : UInt32} (hwalk : c.disk.walk rootId path = .ok id)
    (hregular : (c.disk.inode id).isRegular = true) {length : Nat}
    (hlength : length ≤ (c.disk.inode id).length) :
    AltersAt c diskSize [path] (.store id ((c.disk.inode id).shrunk length).encode ::
      Effect.deallocate ((c.disk.inode id).dropped length)) := by
  have hid := Disk.walk_reachable Disk.reachable_root hwalk
  refine h.altersAt_inode List.mem_cons_self hwalk
    (h.changes_truncate hid hregular hlength).entries ?_
  intro effect heffect
  rcases List.mem_cons.mp heffect with rfl | heffect
  · exact within_inode hid
  · exact within_of_bookkeeping (Effect.bookkeeping_deallocate heffect)

theorem altersAt_extend {path : Path} {id now : UInt32} {offset : Nat} {bytes : List UInt8}
    {blocks : List UInt32} (hwalk : c.disk.walk rootId path = .ok id)
    (hoffset : offset ≤ (c.disk.inode id).length)
    (hextends : Extends c diskSize id (offset + bytes.length) blocks) :
    AltersAt c diskSize [path] (Effect.growth blocks ++
      .store id ((c.disk.inode id).written now (offset + bytes.length) blocks).encode ::
        ((c.disk.inode id).written now (offset + bytes.length) blocks).patches offset bytes) := by
  refine h.altersAt_inode List.mem_cons_self hwalk (hextends.changes h now hoffset).entries ?_
  intro effect heffect
  rcases List.mem_append.mp heffect with heffect | heffect
  · exact within_of_bookkeeping (Effect.bookkeeping_growth heffect)
  · rcases List.mem_cons.mp heffect with rfl | heffect
    · exact within_inode hextends.reachable
    · exact within_of_onData hextends.reachable (.inr (hextends.onData_patches h now heffect))

theorem altersAt_detach {path : Path} {name : Name} {parent child : UInt32} {k : Fin slotCount}
    (hentry : c.disk.Entry path name parent k child)
    (hcomponents : ∀ other ∈ path ++ [name], Path.IsComponent other)
    (hleaf : ∀ j other, ¬ c.disk.Links child j other) :
    AltersAt c diskSize [path ++ [name]]
      (c.disk.detached parent k :: Effect.deallocate (c.disk.released child)) := by
  have hwithin : ∀ effect ∈ c.disk.detached parent k :: Effect.deallocate (c.disk.released child),
      c.Within diskSize parent effect := by
    intro effect heffect
    rcases List.mem_cons.mp heffect with rfl | heffect
    · exact within_slots hentry.reachable hentry.directory
    · exact within_of_bookkeeping (Effect.bookkeeping_deallocate heffect)
  have hrelists : Disk.Relists c.disk (c.after [c.disk.detached parent k]).disk parent _ :=
    (Disk.releases_set hentry.reachable hentry.links hleaf).relists
  refine ⟨.inr (.slot hentry.walk
    (h.relists_bookkeeping hrelists fun _ => Effect.bookkeeping_deallocate)
    (fun other hother => hcomponents other (List.mem_append_left _ hother)) (fun _ => ?_)
    (fun hused => ?_) (h.touchesOnly hwithin)), fun _ hblock => h.block_outside hwithin hblock⟩
  · rw [hentry.storedName h.consistent (hcomponents name (by simp))]
    exact List.mem_cons_self
  · rw [Slot.used_release] at hused
    cases hused

theorem altersAt_rename {path : Path} {oldName newName : Name} {parent child : UInt32}
    {k : Fin slotCount} (hentry : c.disk.Entry path oldName parent k child)
    (hcomponents : ∀ other ∈ path ++ [oldName], Path.IsComponent other)
    (hname : Path.IsComponent newName) (hfind : (c.disk.slots parent).find newName = none) :
    AltersAt c diskSize [path ++ [oldName], path ++ [newName]]
      [c.disk.renamed parent k newName] := by
  have hwithin : ∀ effect ∈ [c.disk.renamed parent k newName],
      c.Within diskSize parent effect := by
    intro effect heffect
    rw [List.mem_singleton.mp heffect]
    exact within_slots hentry.reachable hentry.directory
  have hrenames := Disk.renames_set hentry.reachable hentry.links hname hfind
  refine ⟨.inr (.slot hentry.walk hrenames.relists
    (fun other hother => hcomponents other (List.mem_append_left _ hother)) (fun _ => ?_)
    (fun _ => ?_) (h.touchesOnly hwithin)), fun _ hblock => h.block_outside hwithin hblock⟩
  · rw [hentry.storedName h.consistent (hcomponents oldName (by simp))]
    exact List.mem_cons_self
  · have hstored := hrenames.storedName_get h.consistent k
    rw [hrenames.get_slots h.consistent, if_pos rfl, if_pos rfl] at hstored
    rw [hstored]
    exact List.mem_cons_of_mem _ List.mem_cons_self

theorem altersAt_plan (hplan : Plan c diskSize paths effects)
    (hcomponents : ∀ path ∈ paths, ∀ name ∈ path, Path.IsComponent name) :
    AltersAt c diskSize paths effects := by
  cases hplan with
  | nothing => exact altersAt_nothing paths
  | restamp hwalk hshape => exact h.altersAt_restamp hwalk hshape
  | shrink hwalk hregular hlength => exact h.altersAt_shrink hwalk hregular hlength
  | extend hwalk hoffset hextends _ => exact h.altersAt_extend hwalk hoffset hextends
  | detach hentry hleaf =>
    exact h.altersAt_detach hentry (hcomponents _ List.mem_cons_self) hleaf
  | rename hentry hname hfind =>
    exact h.altersAt_rename hentry (hcomponents _ List.mem_cons_self) hname hfind

theorem altersAt_create {path : Path} {name : Name} {parent id : UInt32} {k : Fin slotCount}
    {blank : List UInt32} {type : FileType} (hwalk : c.disk.walk rootId path = .ok parent)
    (hcomponents : ∀ other ∈ path, Path.IsComponent other)
    (hc : Creates c diskSize parent k name id blank type) (permissions now : UInt32)
    (owner : Owner) :
    AltersAt c diskSize [path ++ [name]] (creation c parent k name id blank
      (Inode.fresh type permissions owner now blank.head?) ++ Effect.allocate (id :: blank)) := by
  have hwithin : ∀ effect ∈ creation c parent k name id blank
      (Inode.fresh type permissions owner now blank.head?) ++ Effect.allocate (id :: blank),
        c.Within diskSize parent effect := by
    intro effect heffect
    rcases List.mem_append.mp heffect with heffect | heffect
    · rcases List.mem_cons.mp heffect with rfl | heffect
      · exact within_spare (hc.spare id List.mem_cons_self)
      · rcases List.mem_cons.mp heffect with rfl | heffect
        · exact within_slots hc.reachable hc.directory
        · obtain ⟨block, hblock, rfl⟩ := List.mem_map.mp heffect
          exact within_spare (hc.spare block (List.mem_cons_of_mem id hblock))
    · exact within_of_bookkeeping (Effect.bookkeeping_allocate heffect)
  have hunused := (Directory.firstUnused_eq_some_iff.mp hc.unused).1
  refine ⟨.inr (.slot hwalk (h.relists_bookkeeping (hc.inserts h permissions now owner).relists
      fun _ => Effect.bookkeeping_allocate) hcomponents (fun hused => ?_) (fun _ => ?_)
      (h.touchesOnly hwithin)), fun _ hblock => h.block_outside hwithin hblock⟩
  · exact absurd (hunused.symm.trans hused) Bool.false_ne_true
  · rw [Slot.storedName_of_toField rfl hc.component.zero_not_mem, hc.component.truncate_eq]
    exact List.mem_cons_self

end Mounted

end Content

theorem Path.Spelled.components {texts : List String} {paths : List Path}
    (h : Path.Spelled texts paths) : ∀ path ∈ paths, ∀ name ∈ path, Path.IsComponent name := by
  induction h with
  | nil => exact nofun
  | cons htext _ ih =>
    intro path hpath
    rcases List.mem_cons.mp hpath with rfl | hpath
    · exact fun _ hname => Path.isComponent_of_ofString htext hname
    · exact ih path hpath

theorem Path.Spelled.exists_text {texts : List String} {paths : List Path}
    (h : Path.Spelled texts paths) {path : Path} (hpath : path ∈ paths) :
    ∃ text ∈ texts, Path.ofString text = .ok path := by
  induction h with
  | nil => cases hpath
  | cons htext _ ih =>
    rcases List.mem_cons.mp hpath with rfl | hpath
    · exact ⟨_, List.mem_cons_self, htext⟩
    · obtain ⟨text, hmem, htext⟩ := ih hpath
      exact ⟨text, List.mem_cons_of_mem _ hmem, htext⟩

namespace Content

variable {c : Content} {diskSize : UInt32} {effects : List Effect}

/-- What a call decides to change alters the tree at its targets. -/
theorem Safe.altersAt_request (h : c.Safe diskSize) {now : UInt32} {request : Request}
    (hplan : (request.effects c.volume now).answer c.disk = .ok effects) :
    ∃ paths, Path.Spelled request.targets paths ∧ AltersAt c diskSize paths effects := by
  by_cases hcreate : request.IsCreate
  · cases request with
    | create text permissions type owner =>
      obtain ⟨update, hupdate, rfl⟩ := Query.answer_map_eq_ok.mp hplan
      obtain ⟨path, name, parent, k, id, blank, htext, hwalk, hcreates, -, rfl⟩ :=
        h.of_create hupdate
      refine ⟨_, .cons htext .nil, h.mounted.altersAt_create hwalk ?_ hcreates permissions now owner⟩
      intro other hother
      exact Path.isComponent_of_ofString htext (List.mem_append_left [name] hother)
    | _ => exact hcreate.elim
  · obtain ⟨paths, hspelled, hplan⟩ := h.plan_request hcreate hplan
    exact ⟨paths, hspelled, h.mounted.altersAt_plan hplan (Path.Spelled.components hspelled)⟩

end Content

end BlockFS
