import BlockFS.Proofs.Refinement.Files

/-!
Calls that fail change nothing. On a device that does not fail a call is refused while it decides
what to change, or not at all: once it has decided, all of its effects are carried out. So a call
that returns an error, for whatever reason, leaves the disk and all that is held in memory as they
were.
-/

set_option autoImplicit false
set_option relaxedAutoImplicit false

namespace BlockFS.FileSystem

variable {fs fs' : FileSystem} {diskSize now : UInt32} {request : Request} {failure : Failure}

theorem content_of_error (hsound : fs.content.Sound diskSize)
    (hfaults : fs.device.faults = Faults.none)
    (hperform : perform now request fs = .error failure fs') : fs'.content = fs.content := by
  rw [← after_of_error hperform, content_after hsound hfaults]
  cases hplan : (request.effects fs.volume now).answer fs.device.disk with
  | error reason => rfl
  | ok effects =>
    by_cases hempty : effects = []
    · subst hempty
      rfl
    · obtain ⟨α, plan, f, h⟩ := exists_transacts hplan hempty
      rw [h.effects] at hplan
      obtain ⟨update, hupdate, rfl⟩ := Query.answer_map_eq_ok.mp hplan
      obtain ⟨other, hother, -⟩ := perform_of_granted hsound hfaults h hupdate
      cases hother.symm.trans hperform

/-- Whatever calls came before, a call that fails leaves every block of the device, and the bitmap
and the counters in memory, as they were. -/
theorem Reached.unchanged_of_error (h : Reached diskSize fs)
    (hperform : perform now request fs = .error failure fs') :
    fs'.device.disk = fs.device.disk ∧ fs'.volume.bitmap = fs.volume.bitmap ∧
      fs'.volume.usage = fs.volume.usage := by
  have hcontent := content_of_error h.sound.2 h.sound.1 hperform
  have hvolume : fs'.volume = fs.volume := congrArg Content.volume hcontent
  exact ⟨congrArg Content.disk hcontent, by rw [hvolume], by rw [hvolume]⟩

theorem write_of_too_long (hsound : fs.content.Sound diskSize)
    (hfaults : fs.device.faults = Faults.none) (now : UInt32) {text : String} {id : UInt32}
    (hresolve : fs.content.disk.resolve text 0 = .ok id) {offset : Nat} {bytes : List UInt8}
    (hbytes : bytes ≠ []) (hlong : diskSize.toNat - reservedBlocks.toNat <
      blocksToHold (offset + bytes.length) - (fs.content.disk.inode id).blockCount) :
    ∃ failure fs', perform now (.write text offset bytes) fs = .error failure fs' := by
  cases hperform : perform now (.write text offset bytes) fs with
  | error failure fs' => exact ⟨failure, fs', rfl⟩
  | ok response fs' =>
    obtain ⟨update, hplan, -⟩ := granted_of_perform hsound hfaults
      (transacts_write now text offset bytes) hperform
    obtain ⟨other, hother, -, -, hcases⟩ := hsound.safe.of_write hplan
    obtain rfl := Except.ok.inj (hresolve.symm.trans hother)
    obtain ⟨hnil, -⟩ | ⟨-, blocks, hfit, -⟩ := hcases
    · exact absurd hnil hbytes
    · have hoffers := Bitmap.offers_of_firstFit hsound.mounted.fits hfit
      have hclear := hoffers.wanted_le hsound.mounted.fits
      have hbound := fs.volume.bitmap.length_clear_le reservedBlocks.toNat
      have hblocks : fs.volume.bitmap.blocks = diskSize := hsound.mounted.bitmap
      rw [hblocks] at hbound
      exact absurd (Nat.le_trans hclear hbound) (Nat.not_le.mpr hlong)

/-- A file in a file system of 16 blocks, and a write of 20 blocks to it. -/
theorem unchanged_after_long_write : ∃ fs failure fs', Reached 16 fs ∧
    perform 2 (.write "/a" 0 (List.replicate 81920 7)) fs = .error failure fs' ∧
      fs'.device.disk = fs.device.disk ∧ fs'.volume.bitmap = fs.volume.bitmap ∧
      fs'.volume.usage = fs.volume.usage := by
  obtain ⟨volume, device, fs, id, hformat, hreached, hperform⟩ := exists_created
  have hafter : Reached 16 fs := hreached.performed hperform
  obtain ⟨hfaults, hsound⟩ := hreached.sound
  have htext : Path.ofString "/a" = .ok [[97]] := by rfl
  obtain ⟨hwalks, -⟩ := create_leads hsound hfaults htext hperform
  have hresolve : fs.content.disk.resolve "/a" 0 = .ok id := (Disk.resolve_zero htext).trans
    ((hafter.sound.2.mounted.consistent.walks_text htext).mp hwalks)
  obtain ⟨path, name, parent, slots, k, made, -, -, -, -, -, -, -, hmade, hcontents, -⟩ :=
    create_refines hsound hfaults hperform
  obtain rfl : id = made := Response.inode.inj hmade
  have hempty : (fs.content.disk.inode id).length = 0 := by
    rw [← Disk.length_contents, hcontents rfl, List.length_nil]
  have hcount : (fs.content.disk.inode id).blockCount = 0 := by
    rw [Inode.blockCount, hempty]
    rfl
  have hlong : (16 : UInt32).toNat - reservedBlocks.toNat <
      blocksToHold (0 + (List.replicate 81920 (7 : UInt8)).length) -
        (fs.content.disk.inode id).blockCount := by
    rw [hcount, List.length_replicate]
    decide
  have hbytes : List.replicate 81920 (7 : UInt8) ≠ [] :=
    List.ne_nil_of_length_pos (by rw [List.length_replicate]; decide)
  obtain ⟨failure, fs', hwrite⟩ :=
    write_of_too_long hafter.sound.2 hafter.sound.1 2 hresolve hbytes hlong
  exact ⟨fs, failure, fs', hafter, hwrite, hafter.unchanged_of_error hwrite⟩

end BlockFS.FileSystem
