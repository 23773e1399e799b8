import BlockFS.Proofs.Refinement.Independence
import BlockFS.Proofs.Volume.Refusals

/-!
A file system never finds itself broken. On a device that does not fail, after any calls, no call is
refused for a device error or an invalid superblock: the checks that would do so are the range check
of inode numbers, the check of sizes, the range check of the bitmap and the bounds of the device,
and each of them succeeds whenever it is reached. Nor does a path that was resolved turn out to have
no parent, or one that is no directory.
-/

set_option autoImplicit false
set_option relaxedAutoImplicit false

namespace BlockFS

namespace FileSystem

variable {fs : FileSystem} {diskSize : UInt32}

theorem outcome_ordinary (hsound : fs.content.Sound diskSize)
    (hfaults : fs.device.faults = Faults.none) (now : UInt32) (request : Request) :
    Ensures Failure.Ordinary (fun _ => True) (fs.outcome now request) := by
  have h := hsound.mounted.questions
  cases request with
  | lookup text =>
    rw [outcome_asks hfaults (asks_lookup now text)]
    exact (h.lookup text).map
  | attributes text =>
    rw [outcome_asks hfaults (asks_attributes now text)]
    exact (h.attributes text).map
  | list text =>
    rw [outcome_asks hfaults (asks_list now text)]
    exact (h.list text).map
  | create text permissions type owner =>
    rw [outcome_transacts hsound hfaults (transacts_create now text permissions type owner)]
    exact (h.create now permissions text type owner).map
  | deleteFile text =>
    rw [outcome_transacts hsound hfaults (transacts_deleteFile now text)]
    exact (h.deleteFile text).map
  | deleteDirectory text =>
    rw [outcome_transacts hsound hfaults (transacts_deleteDirectory now text)]
    exact (h.deleteDirectory text).map
  | rename source target =>
    rw [outcome_transacts hsound hfaults (transacts_rename now source target)]
    exact (h.rename source target).map
  | setPermissions text mode =>
    rw [outcome_transacts hsound hfaults (transacts_setPermissions now text mode)]
    exact (h.setPermissions text mode).map
  | setModified text mtime =>
    rw [outcome_transacts hsound hfaults (transacts_setModified now text mtime)]
    exact (h.setModified text mtime).map
  | truncate text length =>
    rw [outcome_transacts hsound hfaults (transacts_truncate now text length)]
    exact (h.truncate text length).map
  | write text offset bytes =>
    rw [outcome_transacts hsound hfaults (transacts_write now text offset bytes)]
    exact (h.write now text offset bytes).map
  | read text offset buffer =>
    have hlocate := h.locate text 0
    rw [hsound.mounted.locate_answer] at hlocate
    rw [outcome_read hsound.mounted hfaults, Disk.filled]
    cases hresolve : fs.content.disk.resolve text 0 with
    | error reason =>
      rw [hresolve] at hlocate
      exact hlocate
    | ok id =>
      dsimp only
      split
      · exact trivial
      · exact ⟨by decide, by decide⟩
  | statistics => exact trivial
  | usage => exact trivial
  | sync =>
    rw [outcome_sync hfaults]
    exact trivial
  | remount =>
    rw [outcome_remount hsound hfaults]
    exact trivial

/-- No check for a broken device or a broken file system fails, wherever it is reached. -/
structure Intact (fs : FileSystem) (diskSize : UInt32) : Prop where
  /-- A call that fails is refused for what was asked: no device error, no invalid superblock, no
  position out of bounds and no number out of its word. -/
  outcomes : ∀ {now request failure}, fs.outcome now request = .error failure → failure.Ordinary
  /-- A remount succeeds. -/
  remounts : ∀ {now}, fs.outcome now .remount = .ok .done
  /-- What a path leads to has a number in range, and a size that its pointers can hold. -/
  located : ∀ {text depth id inode},
    (fs.volume.locate text depth).answer fs.device.disk = .ok (id, inode) →
      fs.volume.superblock.checkRange id = .ok () ∧ inode.boundedLength = .ok inode.length
  /-- The entries of a directory have numbers in range. -/
  listed : ∀ {text depth id inode slots},
    (fs.volume.locate text depth).answer fs.device.disk = .ok (id, inode) →
      inode.slots.answer fs.device.disk = .ok slots →
        ∀ slot ∈ slots.entries, fs.volume.superblock.checkRange slot.inode = .ok ()
  /-- Free blocks that are found have numbers in range. -/
  offered : ∀ {wanted blocks}, fs.volume.bitmap.firstFit reservedBlocks wanted = .ok blocks →
    ∀ id ∈ blocks, fs.volume.superblock.checkRange id = .ok ()
  /-- Once a path has led somewhere its parent is a directory, and the last name is in it. -/
  parents : ∀ {text path name located}, Path.ofString text = .ok (path ++ [name]) →
    (fs.volume.locate text 0).answer fs.device.disk = .ok located →
      ∃ id parent slots, (fs.volume.locate text 1).answer fs.device.disk = .ok (id, parent) ∧
        parent.slots.answer fs.device.disk = .ok slots ∧ (slots.find name).isSome = true
  /-- What a call has to read to decide what it changes is on the device. -/
  reads : ∀ (now : UInt32) (request : Request),
    (request.effects fs.volume now).Reads fs.device.disk (· < diskSize)
  /-- What a call decides on may be carried out: the blocks it writes are on the device, those it
  marks have bits, and the counters can follow. -/
  effects : ∀ {now : UInt32} {request : Request} {effects : List Effect},
    (request.effects fs.volume now).answer fs.device.disk = .ok effects →
      Effect.AllAllowed effects fs.content

/-- Whatever calls came before, no check for a broken device or a broken file system fails. -/
theorem Reached.intact (h : Reached diskSize fs) : fs.Intact diskSize := by
  obtain ⟨hfaults, hsound⟩ := h.sound
  have hmounted := hsound.mounted
  have hquestions := hmounted.questions
  have hrange : ∀ {id : UInt32}, fs.content.disk.Reachable id →
      fs.volume.superblock.checkRange id = .ok () := hmounted.checkRange_reachable
  refine ⟨?_, outcome_remount hsound hfaults, ?_, ?_, ?_, ?_, ?_, ?_⟩
  · intro now request failure houtcome
    exact (outcome_ordinary hsound hfaults now request).of_error houtcome
  · intro text depth id inode hlocate
    obtain ⟨other, heq, hresolve⟩ := hmounted.of_locate hlocate
    cases heq
    have hid := Disk.resolve_reachable hresolve
    exact ⟨hrange hid, (hmounted.consistent.formed hid).boundedLength⟩
  · intro text depth id inode slots hlocate hslots slot hslot
    obtain ⟨other, heq, hresolve⟩ := hmounted.of_locate hlocate
    cases heq
    have hid := Disk.resolve_reachable hresolve
    have hanswer : (fs.content.disk.inode id).slots.answer fs.device.disk = _ :=
      hmounted.slots_answer hid
    by_cases hdirectory : (fs.content.disk.inode id).isDirectory = true
    · rw [if_pos hdirectory] at hanswer
      obtain rfl := Except.ok.inj (hanswer.symm.trans hslots)
      exact hrange (Disk.Reachable.child_of_entries hid hdirectory hslot)
    · rw [if_neg hdirectory] at hanswer
      exact nomatch hanswer.symm.trans hslots
  · intro wanted blocks hblocks id hid
    obtain ⟨hlow, hhigh, -⟩ := Bitmap.mem_clear.mp
      ((Bitmap.offers_of_firstFit hmounted.fits hblocks).clear id hid)
    rw [hmounted.bitmap] at hhigh
    exact hmounted.checkRange (UInt32.le_iff_toNat_le.mpr hlow) (UInt32.lt_iff_toNat_lt.mpr hhigh)
  · intro text path name located htext hlocate
    obtain ⟨child, -, hresolve⟩ := hmounted.of_locate hlocate
    rw [Disk.resolve_zero htext] at hresolve
    obtain ⟨parent, k, hentry⟩ := Disk.walk_concat_eq_ok_iff.mp hresolve
    refine ⟨parent, _, _, hmounted.locate_parent htext hentry.walk,
      hmounted.slots_answer_directory hentry.reachable hentry.directory, ?_⟩
    rw [hentry.find, Option.isSome_some]
  · intro now request
    refine (hmounted.reads_effects now request).mono fun block hblock => ?_
    obtain ⟨place, hplace⟩ := Disk.Structural.referred hblock
    exact (hmounted.consistent.bounds hmounted.low hplace).2
  · intro now request effects hplan
    exact (hsound.restores_request hplan).1

/-- A file system in which a file was created. -/
theorem intact_after_create : ∃ volume device,
    Device.format 16 0 (Device.ofDisk (Disk.blank 16)) = .ok volume device ∧
      ((FileSystem.mk device volume).after 1 (.create "/a" 0o644 .regular ⟨0, 0⟩)).Intact 16 := by
  obtain ⟨volume, device, hformat⟩ := Device.exists_formatted_blank
  have hreached : Reached 16 ⟨device, volume⟩ := .formatted rfl hformat
  exact ⟨volume, device, hformat, Reached.intact (hreached.called 1 _)⟩

end FileSystem

end BlockFS
