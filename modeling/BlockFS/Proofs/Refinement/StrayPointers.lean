import BlockFS.Proofs.Invariant.Formatted
import BlockFS.Proofs.Invariant.Tampering
import BlockFS.Proofs.Refinement.Outcome
import BlockFS.Proofs.Volume.GivingBack

/-!
Pointers that lead out of the file system. An inode on an untrusted device may hold any number as a
pointer, and a call that gives blocks back looks at the numbers only when it comes to mark them. By
then it has made its one write: such a call is refused with the file detached already. That is the
only way in which a refused call of this kind leaves a trace, as long as the device does not fail.
-/

set_option autoImplicit false
set_option relaxedAutoImplicit false

namespace BlockFS

open Query (answer_bind_of_ok answer_bind_of_error)

namespace Content

/-- A pointer in use of an inode leads out of the file system. -/
def Stray (c : Content) (id : UInt32) : Prop :=
  ∃ k : Fin pointerCount, k.val < (c.disk.inode id).held ∧
    c.volume.superblock.diskSize ≤ (c.disk.inode id).pointers.get k

/-- What a call that gives back blocks of the file at a path leaves when it is refused: nothing is
changed, or the file has a stray pointer and was taken out of its directory, or its pointers out of
its inode, by one write. -/
inductive AfterRefusal (c : Content) (text : String) (request : Request) : Error → Content → Prop
  | unchanged (reason : Error) : AfterRefusal c text request reason c
  | detached {id block : UInt32} {contents : Block} {blocks : List UInt32}
      (hlocate : (c.volume.locate text 0).answer c.disk = .ok (id, c.disk.inode id))
      (hstray : c.Stray id) (hgives : c.volume.Gives c.disk id request block contents blocks) :
      AfterRefusal c text request .io { c with disk := c.disk.set block contents }

end Content

namespace FileSystem

variable {fs fs' : FileSystem} {now : UInt32} {request : Request} {text : String} {reason : Error}

/-! ### Giving blocks back -/

section

variable {block : UInt32} {contents : Block} {blocks : List UInt32}
  (hfits : fs.volume.bitmap.Fits) (hfaults : fs.device.faults = Faults.none)
  (heffects : (request.effects fs.volume now).answer fs.device.disk =
    .ok (.store block contents :: Effect.deallocate blocks))
  (hblock : block.toNat < fs.device.disk.size)

include hfits hfaults heffects hblock

/-- A block past the last one is not given back, and then the call is refused after its write. -/
theorem perform_of_outside (houtside : ∃ given ∈ blocks, fs.volume.bitmap.blocks ≤ given) :
    ∃ fs', perform now request fs = .error (.refused .io) fs' ∧
      fs'.content = { fs.content with disk := fs.content.disk.set block contents } := by
  have hsome : blocks.isEmpty = false := by
    obtain ⟨given, hgiven, -⟩ := houtside
    exact List.isEmpty_eq_false_iff_exists_mem.mpr ⟨given, hgiven⟩
  obtain ⟨α, plan, f, h⟩ := exists_transacts heffects (List.cons_ne_nil _ _)
  rw [h.effects] at heffects
  obtain ⟨update, hplan, hupdate⟩ := Query.answer_map_eq_ok.mp heffects
  rw [Effect.deallocate, hsome] at hupdate
  have hsplit : update.effects = [.store block contents] ++
      .mark blocks false :: [.saveBitmap, .credit blocks.length] := hupdate
  exact perform_of_failing h hfits (by simp [hfaults, Faults.none]) hplan hsplit
    (fun e _ => hfaults ▸ e.served_none) ⟨hblock, trivial⟩ ⟨rfl, houtside⟩

theorem not_refused_of_inside (hbitmap : bitmapId.toNat < fs.device.disk.size)
    (hinside : ∀ given ∈ blocks, given < fs.volume.bitmap.blocks) :
    perform now request fs ≠ .error (.refused reason) fs' := by
  intro hrefused
  obtain ⟨α, plan, f, h⟩ := exists_transacts heffects (List.cons_ne_nil _ _)
  have htransact := transact_of_perform h hrefused
  rw [h.effects] at heffects
  obtain ⟨update, hplan, hupdate⟩ := Query.answer_map_eq_ok.mp heffects
  have hnot : ¬ Effect.AllAllowed update.effects fs.content := by
    intro hallowed
    obtain ⟨other, hother, -⟩ := transact_of_ok hfits hfaults hplan hallowed
    cases hother.symm.trans htransact
  rw [hupdate, Effect.deallocate] at hnot
  by_cases hempty : blocks.isEmpty = true
  · rw [if_pos hempty] at hnot
    exact hnot ⟨hblock, trivial⟩
  · rw [if_neg hempty] at hnot
    -- All but the counter can follow, and that overflows.
    cases hcredit : fs.volume.usage.credit blocks.length with
    | ok usage => exact hnot ⟨hblock, hinside, hbitmap, ⟨usage, hcredit⟩, trivial⟩
    | error failure =>
      have hoverflow : failure = .overflow := by
        rw [Usage.credit] at hcredit
        split at hcredit <;> cases hcredit
        rfl
      rw [Effect.deallocate, if_neg hempty] at hupdate
      have hsplit : update.effects =
          [.store block contents, .mark blocks false, .saveBitmap] ++
            .credit blocks.length :: [] := hupdate
      obtain ⟨other, hother, -⟩ := perform_of_failing h hfits (by simp [hfaults, Faults.none])
        hplan hsplit (fun e _ => hfaults ▸ e.served_none) ⟨hblock, hinside, hbitmap, trivial⟩
        hcredit
      rw [hoverflow] at hother
      cases hother.symm.trans hrefused

end

theorem transacts_of_givesBack (hrequest : request.GivesBack text) (now : UInt32) :
    ∃ (plan : Volume → Query (Update Unit)) (f : Unit → Response),
      Transacts now request plan f := by
  cases hrequest with
  | file => exact ⟨_, _, transacts_deleteFile now text⟩
  | directory => exact ⟨_, _, transacts_deleteDirectory now text⟩
  | tail length => exact ⟨_, _, transacts_truncate now text length⟩

theorem deleteFile_of_stray (now : UInt32) (hsized : fs.volume.Sized)
    (hfaults : fs.device.faults = Faults.none) {id parent : UInt32} {k : Fin slotCount}
    (hlocate : (fs.volume.locate text 0).answer fs.device.disk =
      .ok (id, fs.device.disk.inode id))
    (hfile : (fs.device.disk.inode id).isDirectory = false)
    (hlength : (fs.device.disk.inode id).length ≤ maxFileSize)
    (hends : fs.volume.EndsIn fs.device.disk text parent k) (hstray : fs.content.Stray id) :
    ∃ fs', perform now (.deleteFile text) fs = .error (.refused .io) fs' ∧
      fs'.content = fs.content.after [fs.device.disk.detached parent k] := by
  have heffects : ((Request.deleteFile text).effects fs.volume now).answer fs.device.disk =
      .ok (fs.device.disk.detached parent k ::
        Effect.deallocate (fs.device.disk.released id)) :=
    Query.answer_map_eq_ok.mpr
      ⟨_, Volume.deleteFile_answer hlocate hfile hlength hends, rfl⟩
  obtain ⟨j, hj, hpast⟩ := hstray
  have houtside : ∃ given ∈ fs.device.disk.released id, fs.volume.bitmap.blocks ≤ given := by
    refine ⟨_, Disk.mem_released.mpr (.inr ⟨j, hj, rfl⟩), ?_⟩
    rw [hsized.blocks]
    exact hpast
  exact perform_of_outside hsized.fits hfaults heffects hends.inside houtside

end FileSystem

/-! ### A file system with one file -/

def Directory.ofOne : Directory := Directory.empty.put 0 (Slot.entry 4 [97])

/-- A file system of 16 blocks with that entry in its root, and an inode at block 4. -/
def Disk.holding (i : Inode) : Disk :=
  ((((Disk.blank 16).laidOut 16 0).set bitmapId (Block.padded [0b11111])).set Volume.rootSlotsId
    Directory.ofOne.encode).set 4 i.encode

namespace Disk

variable (i : Inode)

theorem block_holding (block : UInt32) : (holding i).block block =
    if 4 = block then i.encode
    else if Volume.rootSlotsId = block then Directory.ofOne.encode
    else if bitmapId = block then Block.padded [0b11111]
    else ((Disk.blank 16).laidOut 16 0).block block := by
  rw [holding, block_set, block_set, block_set]

theorem inode_root_holding : (holding i).inode rootId = Volume.emptyRoot 0 := by
  rw [inode, block_holding, if_neg (by decide), if_neg (by decide), if_neg (by decide)]
  exact laidOut_root

theorem slots_root_holding : (holding i).slots rootId = Directory.ofOne := by
  rw [slots, inode_root_holding, (emptyRoot_spec 0).2.2, block_holding, if_neg (by decide),
    if_pos rfl, Directory.ofOne, ← Directory.decode_zero]
  exact Directory.decode_encode_put Block.zero 0 (by decide)

theorem inode_file_holding : (holding i).inode 4 = i := by
  rw [inode, block_holding, if_pos rfl, Inode.decode_encode]

end Disk

theorem Directory.find_ofOne : ofOne.find [97] = some 0 := by
  have hempty : empty.find [97] = none := find_eq_none_iff.mpr fun k hused => by
    rw [get_empty] at hused
    cases hused
  exact find_put_self hempty 0 rfl (by decide)

theorem Directory.find_released : (ofOne.put 0 (ofOne.get 0).release).find [97] = none := by
  refine find_eq_none_iff.mpr fun k hused => ?_
  rw [get_put] at hused
  split at hused
  · cases hused
  · rw [ofOne, get_put, if_neg ‹_›, get_empty] at hused
    cases hused

private theorem ofString_a : Path.ofString "/a" = .ok [[97]] := rfl

section

variable {v : Volume} {disk : Disk} {id : UInt32} (hsuper : v.superblock = Superblock.ofSize 16)
  (hsize : disk.size = 16)

include hsuper hsize

private theorem load_small (hlow : rootId ≤ id) (hhigh : id < 16) :
    (v.superblock.loadInode id).answer disk = .ok (disk.inode id) :=
  Superblock.loadInode_of_lt hsuper (Nat.le_of_eq hsize.symm) hlow hhigh

variable (hroot : disk.inode rootId = Volume.emptyRoot 0)

include hroot

omit hsuper in
private theorem slots_root : (disk.inode rootId).slots.answer disk = .ok (disk.slots rootId) := by
  rw [Disk.slots_eq_ok, hroot, hsize]
  exact ⟨⟨(Disk.emptyRoot_spec 0).2.1, (Disk.emptyRoot_spec 0).2.2 ▸ by decide⟩, rfl⟩

private theorem endsIn_root (hfind : (disk.slots rootId).find [97] = some 0) :
    v.EndsIn disk "/a" rootId 0 := by
  obtain ⟨⟨hdirectory, hinside⟩, -⟩ := Disk.slots_eq_ok.mp (slots_root hsize hroot)
  exact ⟨Volume.locate_of_walk ofString_a rfl
    (load_small hsuper hsize (by decide) (by decide)), hdirectory, hinside, [], [97], rfl, hfind⟩

private theorem walk_root : (v.superblock.walk rootId [[97]]).answer disk =
    match (disk.slots rootId).find [97] with
    | some k => .ok ((disk.slots rootId).get k).inode
    | none => .error (.refused .notFound) :=
  Superblock.walk_answer_cons (load_small hsuper hsize (by decide) (by decide))
    (slots_root hsize hroot) [97] []

end

section

variable {v : Volume} (hsuper : v.superblock = Superblock.ofSize 16) (i : Inode)

include hsuper

theorem Volume.locate_holding :
    (v.locate "/a" 0).answer (Disk.holding i) = .ok (4, (Disk.holding i).inode 4) := by
  have hwalk : (v.superblock.walk rootId [[97]]).answer (Disk.holding i) = .ok 4 := by
    rw [walk_root hsuper rfl (Disk.inode_root_holding i), Disk.slots_root_holding,
      Directory.find_ofOne]
    rfl
  exact locate_of_walk ofString_a hwalk (load_small hsuper rfl (by decide) (by decide))

theorem Volume.endsIn_holding : v.EndsIn (Disk.holding i) "/a" rootId 0 :=
  endsIn_root hsuper rfl (Disk.inode_root_holding i)
    (Disk.slots_root_holding i ▸ Directory.find_ofOne)

private theorem walk_unlinked : (v.superblock.walk rootId [[97]]).answer
      ((Content.mk (Disk.holding i) v).after [(Disk.holding i).detached rootId 0]).disk =
    .error (.refused .notFound) := by
  have hdisk : ((Content.mk (Disk.holding i) v).after [(Disk.holding i).detached rootId 0]).disk =
      (Disk.holding i).set Volume.rootSlotsId
        (Directory.ofOne.put 0 (Directory.ofOne.get 0).release).encode := by
    rw [← Disk.slots_root_holding i]
    have hblock : ((Disk.holding i).inode rootId).slotsBlock = Volume.rootSlotsId := by
      rw [Disk.inode_root_holding, (Disk.emptyRoot_spec 0).2.2]
    rw [← hblock]
    rfl
  have hroot : ((Disk.holding i).set Volume.rootSlotsId (Directory.ofOne.put 0
      (Directory.ofOne.get 0).release).encode).inode rootId = Volume.emptyRoot 0 := by
    rw [Disk.inode, Disk.block_set, if_neg (by decide)]
    exact Disk.inode_root_holding i
  have hslots : ((Disk.holding i).set Volume.rootSlotsId (Directory.ofOne.put 0
      (Directory.ofOne.get 0).release).encode).slots rootId =
        Directory.ofOne.put 0 (Directory.ofOne.get 0).release := by
    rw [Disk.slots, hroot, (Disk.emptyRoot_spec 0).2.2, Disk.block_set, if_pos rfl,
      ← Disk.slots_root_holding i]
    refine Directory.decode_encode_put _ 0 ?_
    rw [Slot.inode_release]
    exact Disk.inode_slot_lt (Disk.holding i) rootId 0
  rw [hdisk, walk_root hsuper rfl hroot, hslots, Directory.find_released]

end

/-! ### A file with a stray pointer -/

/-- The inode of a file of one byte, with a pointer that leads out of every file system. -/
def Inode.stray : Inode :=
  { Inode.fresh .regular 0o644 ⟨0, 0⟩ 0 none with
    size := 1
    pointers := (Vector.replicate pointerCount 0).set 0 4000000 pointerCount_pos }

theorem Inode.stray_spec : stray.isDirectory = false ∧ stray.length = 1 ∧ stray.held = 1 ∧
    stray.pointers.get ⟨0, pointerCount_pos⟩ = 4000000 := by
  have hfile : stray.isDirectory = false := by decide
  have hlength : stray.length = 1 := by decide
  refine ⟨hfile, hlength, ?_, Vector.getElem_set_self pointerCount_pos⟩
  rw [held, hfile, if_neg (by decide), blockCount, hlength]
  rfl

def Disk.ofStray : Disk := Disk.holding Inode.stray

namespace FileSystem

private theorem exists_mounted_stray : ∃ volume device,
    Device.mount (Device.ofDisk Disk.ofStray) = .ok volume device ∧
      device.faults = Faults.none ∧ device.disk = Disk.ofStray ∧
      volume.superblock = Superblock.ofSize 16 := by
  have hstored : Superblock.decode (Disk.ofStray.block superblockId) = Superblock.ofSize 16 := by
    rw [Disk.ofStray, Disk.block_holding, if_neg (by decide), if_neg (by decide),
      if_neg (by decide)]
    exact Disk.laidOut_superblock
  have hdirectory : (Disk.ofStray.inode rootId).isDirectory = true := by
    rw [Disk.ofStray, Disk.inode_root_holding]
    exact (Disk.emptyRoot_spec 0).2.1
  obtain ⟨volume, device, hmount, hfaults, hdisk, hsuper, -⟩ :=
    Device.mount_ofDisk (by decide) (by decide) (by decide) hstored hdirectory
  exact ⟨volume, device, hmount, hfaults, hdisk, hsuper⟩

private theorem deleteFile_ofStray {fs : FileSystem} (hsized : fs.volume.Sized)
    (hfaults : fs.device.faults = Faults.none) (hdisk : fs.device.disk = Disk.ofStray)
    (hsuper : fs.volume.superblock = Superblock.ofSize 16) :
    ∃ fs', perform 0 (.deleteFile "/a") fs = .error (.refused .io) fs' ∧
      fs'.content =
        (Content.mk Disk.ofStray fs.volume).after [Disk.ofStray.detached rootId 0] := by
  obtain ⟨hfile, hlength, hheld, hpointer⟩ := Inode.stray_spec
  have hinode : fs.device.disk.inode 4 = Inode.stray := by
    rw [hdisk]
    exact Disk.inode_file_holding Inode.stray
  have hlocate : (fs.volume.locate "/a" 0).answer fs.device.disk =
      .ok (4, fs.device.disk.inode 4) := by
    rw [hdisk]
    exact Volume.locate_holding hsuper Inode.stray
  have hends : fs.volume.EndsIn fs.device.disk "/a" rootId 0 := by
    rw [hdisk]
    exact Volume.endsIn_holding hsuper Inode.stray
  have hstray : fs.content.Stray 4 := by
    refine ⟨⟨0, pointerCount_pos⟩, ?_, ?_⟩
    · show 0 < (fs.device.disk.inode 4).held
      rw [hinode, hheld]
      decide
    · show fs.volume.superblock.diskSize ≤ (fs.device.disk.inode 4).pointers.get _
      rw [hinode, hpointer, hsuper]
      decide
  have hgone := deleteFile_of_stray 0 hsized hfaults hlocate
    (by rw [hinode, hfile]) (by rw [hinode, hlength]; decide) hends hstray
  rwa [FileSystem.content, hdisk] at hgone

/-! ### What is left -/

variable {fs fs' : FileSystem} {now : UInt32} {request : Request} {text : String} {reason : Error}

/-- On a device that does not fail, whatever it holds, a refused call that gives blocks back has
changed nothing, or it met a stray pointer. -/
theorem afterRefusal_of_perform (hsized : fs.volume.Sized)
    (hfaults : fs.device.faults = Faults.none) (hrequest : request.GivesBack text)
    (hperform : perform now request fs = .error (.refused reason) fs') :
    fs.content.AfterRefusal text request reason fs'.content := by
  obtain ⟨plan, f, h⟩ := transacts_of_givesBack hrequest now
  cases hplan : (plan fs.volume).answer fs.device.disk with
  | error failure =>
    obtain ⟨other, hother, hcontent⟩ := perform_of_refused hfaults h hplan
    cases hother.symm.trans hperform
    rw [hcontent]
    exact .unchanged reason
  | ok update =>
    have heffects : (request.effects fs.volume now).answer fs.device.disk =
        .ok update.effects := by
      rw [h.effects]
      exact Query.answer_map_eq_ok.mpr ⟨update, hplan, rfl⟩
    obtain ⟨id, block, contents, blocks, hlocate, hgives, hupdate⟩ :=
      Volume.of_givesBack hrequest heffects
    rw [hupdate] at heffects
    obtain ⟨_, ⟨⟩, hroot, hid, hsize⟩ := Volume.of_locate hlocate
    have hbitmap : bitmapId.toNat < fs.device.disk.size :=
      Nat.lt_of_le_of_lt (UInt32.le_iff_toNat_le.mp (UInt32.le_trans (by decide) hroot)) hsize
    by_cases hinside : ∀ given ∈ blocks, given < fs.volume.bitmap.blocks
    · exact absurd hperform
        (not_refused_of_inside hsized.fits hfaults heffects hgives.inside hbitmap hinside)
    · have houtside : ∃ given ∈ blocks, fs.volume.bitmap.blocks ≤ given := by
        simpa only [not_forall, UInt32.not_lt, exists_prop] using hinside
      obtain ⟨other, hother, hcontent⟩ :=
        perform_of_outside hsized.fits hfaults heffects hgives.inside houtside
      cases hother.symm.trans hperform
      obtain ⟨given, hgiven, hpast⟩ := houtside
      rw [hsized.blocks] at hpast
      rw [hcontent]
      rcases hgives.owned hgiven with rfl | ⟨k, hk, rfl⟩
      · exact absurd hid (UInt32.not_lt.mpr hpast)
      · exact .detached hlocate ⟨k, hk, hpast⟩ hgives

/-- What a refused call that gives blocks back leaves, on a file system that was mounted from any
device and whose device holds anything since. -/
theorem Tampered.after_refusal {calls : List Call} (h : Tampered calls fs) {disk : Disk}
    (hrequest : request.GivesBack text)
    (hperform : perform now request (fs.facing disk Faults.none) = .error (.refused reason) fs') :
    (Content.mk disk fs.volume).AfterRefusal text request reason fs'.content := by
  have hsized : (fs.facing disk Faults.none).volume.Sized := h.sized
  exact afterRefusal_of_perform hsized rfl hrequest hperform

/-- Deleting a file with a stray pointer is refused, and leaves what was said. -/
theorem after_refusal_of_stray_file : ∃ volume device fs',
    Device.mount (Device.ofDisk Disk.ofStray) = .ok volume device ∧
      perform 0 (.deleteFile "/a") ((FileSystem.mk device volume).facing Disk.ofStray Faults.none) =
        .error (.refused .io) fs' ∧
      (Content.mk Disk.ofStray volume).AfterRefusal "/a" (.deleteFile "/a") .io fs'.content := by
  obtain ⟨volume, device, hmount, -, -, hsuper⟩ := exists_mounted_stray
  have hmounted : Tampered [] ⟨device, volume⟩ := .mounted hmount
  have hsized : ((FileSystem.mk device volume).facing Disk.ofStray Faults.none).volume.Sized :=
    hmounted.sized
  obtain ⟨fs', hrefused, -⟩ := deleteFile_ofStray hsized rfl rfl hsuper
  exact ⟨volume, device, fs', hmount, hrefused, hmounted.after_refusal .file hrefused⟩

/-- Deleting that file is refused, but then it is not found. -/
theorem unlinked_though_refused : ∃ volume device looked refused asked,
    Device.mount (Device.ofDisk Disk.ofStray) = .ok volume device ∧
      perform 0 (.lookup "/a") ⟨device, volume⟩ = .ok (.inode 4) looked ∧
      perform 0 (.deleteFile "/a") ⟨device, volume⟩ = .error (.refused .io) refused ∧
      perform 0 (.lookup "/a") refused = .error (.refused .notFound) asked := by
  obtain ⟨volume, device, hmount, hfaults, hdisk, hsuper⟩ := exists_mounted_stray
  have hsized : (FileSystem.mk device volume).volume.Sized := (Tampered.mounted hmount).sized
  have hnone : (FileSystem.mk device volume).device.faults = Faults.none := hfaults
  have hfound : (volume.lookup "/a").answer device.disk = .ok 4 := by
    rw [hdisk]
    exact answer_bind_of_ok (Volume.locate_holding hsuper Inode.stray) _
  obtain ⟨looked, hlooked, -⟩ :=
    perform_of_answer hnone (asks_lookup 0 "/a") hfound
  obtain ⟨refused, hrefused, hcontent⟩ := deleteFile_ofStray hsized hnone hdisk hsuper
  have hsame : refused.device.faults = Faults.none := by
    have hremount : Request.deleteFile "/a" ≠ .remount := nofun
    have hafter := (after_ends hsized.fits 0 hremount).1
    rw [after_of_error hrefused] at hafter
    exact hafter.trans hfaults
  have hgone : (refused.volume.lookup "/a").answer refused.device.disk =
      .error (.refused .notFound) := by
    have hvolume : refused.volume = volume := congrArg Content.volume hcontent
    have hunlinked : refused.device.disk = _ := congrArg Content.disk hcontent
    rw [hvolume, hunlinked]
    exact answer_bind_of_error
      (Volume.locate_of_walk_error ofString_a (walk_unlinked hsuper Inode.stray)) _
  obtain ⟨asked, hasked, -⟩ := perform_of_refusal hsame (asks_lookup 0 "/a") hgone
  exact ⟨volume, device, looked, refused, asked, hmount, hlooked, hrefused, hasked⟩

end FileSystem

end BlockFS
