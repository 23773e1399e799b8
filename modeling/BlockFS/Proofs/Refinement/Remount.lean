import BlockFS.Proofs.Refinement.Files
import BlockFS.Proofs.Refinement.Independence

/-!
Remounting loses nothing. Everything a file system holds in memory is on its device too: mounting
the device finds the same superblock, bitmap and counters, and since both hold the same and have the
same disk, no sequence of calls can tell the file system that was mounted again from the one that
kept running.
-/

set_option autoImplicit false
set_option relaxedAutoImplicit false

namespace BlockFS.FileSystem

variable {fs fs' : FileSystem} {diskSize : UInt32}

theorem mount_of_sound (hsound : fs.content.Sound diskSize)
    (hfaults : fs.device.faults = Faults.none) : ∃ device,
      Device.mount fs.device = .ok fs.volume device ∧ device.disk = fs.device.disk := by
  obtain ⟨device, hmount, -, hdisk⟩ := Device.mount_of_load hfaults hsound.load_answer
  exact ⟨device, hmount, hdisk⟩

theorem after_remount_of_mount (now : UInt32) {device : Device} {volume : Volume}
    (h : Device.mount fs.device = .ok volume device) :
    fs.after now .remount = ⟨device, volume⟩ := by
  simp only [after, perform, remount, onDevice, bind, EStateM.bind, h]
  rfl

/-- A file system that was reached and the one that is mounted from its device are twins. -/
theorem Reached.twins_of_mount (h : Reached diskSize fs) {device : Device}
    (hmount : Device.mount fs.device = .ok fs.volume device)
    (hdisk : device.disk = fs.device.disk) : Twins diskSize fs ⟨device, fs.volume⟩ where
  reached := h
  reached' := by
    rw [← after_remount_of_mount 0 hmount]
    exact h.called 0 .remount
  alike := by
    refine ⟨rfl, ?_⟩
    show Disk.Alike fs.device.disk device.disk
    rw [hdisk]
    exact fun _ _ _ => rfl

theorem Reached.content_afterAll (h : Reached diskSize fs) (h' : Reached diskSize fs')
    (hcontent : fs'.content = fs.content) (calls : List (UInt32 × Request)) :
    (fs'.afterAll calls).content = (fs.afterAll calls).content := by
  induction calls generalizing fs fs' with
  | nil => exact hcontent
  | cons call rest ih =>
    obtain ⟨now, request⟩ := call
    refine ih (h.called now request) (h'.called now request) ?_
    obtain ⟨hfaults, hsound⟩ := h.sound
    obtain ⟨hfaults', hsound'⟩ := h'.sound
    have hvolume : fs'.volume = fs.volume := congrArg Content.volume hcontent
    have hdisk : fs'.device.disk = fs.device.disk := congrArg Content.disk hcontent
    rw [content_after hsound hfaults, content_after hsound' hfaults', hvolume, hdisk, hcontent]

/-- Nothing that is held in memory is missing on the device: the bitmap is there byte for byte, the
counters are those of its clear bits, and what is mounted from the device does the same from then
on. -/
structure Recoverable (fs : FileSystem) (diskSize : UInt32) : Prop where
  bitmap : fs.device.disk.block bitmapId = fs.volume.bitmap.map
  blocks : fs.volume.bitmap.blocks = diskSize
  free : fs.volume.usage.free.toNat = (fs.volume.bitmap.clear reservedBlocks.toNat).length
  total : fs.volume.usage.total.toNat = diskSize.toNat - reservedBlocks.toNat
  used : ∃ used, fs.volume.usage.used? = some used ∧
    fs.volume.usage.free.toNat + used.toNat = fs.volume.usage.total.toNat
  mounts : ∃ device, Device.mount fs.device = .ok fs.volume device ∧
    device.disk = fs.device.disk ∧ ∀ calls : List (UInt32 × Request),
      (FileSystem.mk device fs.volume).outcomes calls = fs.outcomes calls ∧
        ((FileSystem.mk device fs.volume).afterAll calls).content = (fs.afterAll calls).content

/-- Whatever calls came before, remounting loses nothing. -/
theorem Reached.recoverable (h : Reached diskSize fs) : fs.Recoverable diskSize := by
  obtain ⟨hfaults, hsound⟩ := h.sound
  have hblocks : fs.volume.bitmap.blocks = diskSize := hsound.mounted.bitmap
  have hfree : fs.volume.usage.free.toNat = _ := hsound.tracks.counts.free
  have htotal : fs.volume.usage.total.toNat = fs.volume.bitmap.blocks.toNat - reservedBlocks.toNat :=
    hsound.tracks.counts.total
  have hle : fs.volume.usage.free ≤ fs.volume.usage.total := by
    rw [UInt32.le_iff_toNat_le, hfree, htotal]
    exact Bitmap.length_clear_le _ _
  obtain ⟨device, hmount, hdisk⟩ := mount_of_sound hsound hfaults
  have htwins := h.twins_of_mount hmount hdisk
  refine ⟨hsound.tracks.saved, hblocks, hfree, hblocks ▸ htotal, ?_,
    device, hmount, hdisk, fun calls => ⟨htwins.outcomes_eq calls, ?_⟩⟩
  · refine ⟨_, if_neg (UInt32.not_lt.mpr hle), ?_⟩
    rw [UInt32.toNat_sub_of_le _ _ hle]
    exact Nat.add_sub_cancel' (UInt32.le_iff_toNat_le.mp hle)
  · exact h.content_afterAll htwins.reached' (congrArg (Content.mk · fs.volume) hdisk) calls

/-- A file system in which a file was created and deleted again. -/
theorem recoverable_after_removal : ∃ volume device,
    Device.format 16 0 (Device.ofDisk (Disk.blank 16)) = .ok volume device ∧
      Recoverable (((FileSystem.mk device volume).after 1 (.create "/a" 0o644 .regular ⟨0, 0⟩)).after
        2 (.deleteFile "/a")) 16 := by
  obtain ⟨volume, device, hformat⟩ := Device.exists_formatted_blank
  have hreached : Reached 16 ⟨device, volume⟩ := .formatted rfl hformat
  exact ⟨volume, device, hformat, Reached.recoverable ((hreached.called 1 _).called 2 _)⟩

end BlockFS.FileSystem
