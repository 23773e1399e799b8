import BlockFS.Proofs.Invariant.Drift
import BlockFS.Proofs.Refinement.Failures
import BlockFS.Proofs.Refinement.TornWrites

/-!
File systems that go on after calls have failed. However reads and writes fail, the blocks of the
tree stay marked, and as long as the bitmap and the blank slots of new directories can be written
the counters agree with the bitmap. Where one of these writes fails, the counters drift: after a
failed removal fewer blocks are counted as free than are clear, and after a failed create and a
removal that succeeds more of them.
-/

set_option autoImplicit false
set_option relaxedAutoImplicit false

namespace BlockFS

theorem Content.Sound.length_clear_released {c : Content} {diskSize id : UInt32}
    (h : c.Sound diskSize) (hid : c.disk.Reachable id) :
    ((c.volume.bitmap.marked (c.disk.released id) false).clear reservedBlocks.toNat).length =
      c.free + (c.disk.released id).length := by
  have hmarked : ∀ block ∈ c.disk.released id, reservedBlocks.toNat ≤ block.toNat ∧
      block < c.volume.bitmap.blocks ∧ Bitmap.isSet c.volume.bitmap.map block.toNat = true := by
    intro block hblock
    obtain ⟨place, hplace⟩ := Disk.refers_of_mem_released hid hblock
    obtain ⟨hlow, hhigh⟩ := h.mounted.consistent.bounds h.mounted.low hplace
    refine ⟨UInt32.le_iff_toNat_le.mp (UInt32.le_trans (by decide) hlow), ?_,
      h.safe.covers.marked (Disk.inUse_of_refers hplace)⟩
    rw [h.mounted.bitmap]
    exact hhigh
  rw [Bitmap.length_clear_released h.mounted.fits (h.mounted.consistent.nodup_released hid) hmarked,
    Content.free, h.tracks.counts.free]

namespace FileSystem

variable {fs fs' : FileSystem} {diskSize now : UInt32}

/-! ### Calls that fail after their first effect -/

theorem exists_created_afresh : ∃ volume device fs id,
    Device.format 16 0 (Device.ofDisk (Disk.blank 16)) = .ok volume device ∧
      perform 1 (.create "/a" 0o644 .regular ⟨0, 0⟩)
        ((FileSystem.mk device volume).withFaults Faults.none) = .ok (.inode id) fs ∧
      fs.device.faults = Faults.none ∧ fs.content.Sound 16 ∧ fs.FileAt "/a" [[97]] id ∧
      (fs.file id).bytes = [] ∧ fs.content.free = 11 := by
  obtain ⟨volume, device, fs, id, hformat, hperform, hreached, hfile, hempty, hfree⟩ :=
    exists_created_file
  have hformatted : Reached 16 ⟨device, volume⟩ := .formatted rfl hformat
  obtain ⟨hfaults, hsound⟩ := hformatted.sound
  have hsound' : ((FileSystem.mk device volume).withFaults Faults.none).content.Sound 16 := hsound
  obtain ⟨other, hother, hsame⟩ := perform_of_same hsound hfaults
    (transacts_create 1 "/a" 0o644 .regular ⟨0, 0⟩)
    ((FileSystem.mk device volume).withFaults Faults.none) rfl rfl hperform
  have hafter := sound_of_perform hsound' rfl hother
  refine ⟨volume, device, other, id, hformat, hother, hafter.1, hafter.2,
    ⟨hfile.spelled, ?_, ?_⟩, ?_, ?_⟩
  · rw [nodes, hsame]
    exact hfile.walk
  · rw [nodes, hsame]
    exact hfile.file
  · rw [file, hsame]
    exact hempty
  · rw [hsame, hfree]

/-- A deletion that cannot write the bitmap has taken the file out of the tree, and its blocks are
clear in memory and not counted as free. -/
theorem deleteFile_unsaved (hsound : fs.content.Sound diskSize) {text : String} {path : Path}
    {id : UInt32} (hfile : fs.FileAt text path id) :
    ∃ above name parent slots k failed, Path.ofString text = .ok (above ++ [name]) ∧
      fs.nodes.Holds above name parent slots k id ∧
      perform now (.deleteFile text) (fs.withFaults Faults.onBitmap) =
        .error (.refused .io) failed ∧
      failed.nodes = Function.update (Function.update fs.nodes id none) parent
        (some (.directory (Function.update slots k none))) ∧
      failed.content.free = fs.content.free ∧
      (failed.volume.bitmap.clear reservedBlocks.toNat).length =
        fs.content.free + 1 + blocksToHold (fs.file id).bytes.length := by
  have hconsistent := hsound.mounted.consistent
  obtain ⟨htext, hwalk, hregular⟩ := (fileAt_iff hsound.mounted).mp hfile
  have hleaf := Inode.isDirectory_eq_false_of_isRegular hregular
  obtain ⟨above, name, parent, k, htext', hentry⟩ :=
    Disk.entry_of_file hconsistent ((Disk.resolve_zero htext).trans hwalk) hleaf
  have hid := hentry.reachable.child hentry.links
  have hplan := hsound.mounted.deleteFile_eq_ok.mpr
    ⟨above, name, parent, k, id, htext', hentry, hleaf, rfl⟩
  have heffects : ((Request.deleteFile text).effects fs.volume now).answer fs.device.disk =
      .ok _ := Query.answer_map_eq_ok.mpr ⟨_, hplan, rfl⟩
  have hsplit : fs.content.disk.detached parent k ::
        Effect.deallocate (fs.content.disk.released id) =
      [fs.content.disk.detached parent k, .mark (fs.content.disk.released id) false] ++
        .saveBitmap :: [.credit (fs.content.disk.released id).length] := by
    rw [Disk.released_file hleaf, Effect.deallocate, if_neg (by simp)]
    rfl
  have hallowed := (hsound.restores_request heffects).1
  rw [hsplit] at hallowed
  have hothers : ∀ effect ∈ [fs.content.disk.detached parent k,
      .mark (fs.content.disk.released id) false], effect.target ≠ some bitmapId := by
    intro effect heffect
    rcases List.mem_cons.mp heffect with rfl | heffect
    · exact (hsound.mounted.written_detached hentry.reachable hentry.links
        (Disk.leaf_of_file hleaf)).target _ List.mem_cons_self
    · exact Effect.target_ne_of_mark bitmapId effect heffect
  obtain ⟨failed, hfailed, hcontent⟩ := perform_unsaved hsound.mounted heffects hsplit hothers
    (Effect.allAllowed_append.mp hallowed).1
  refine ⟨above, name, parent, _, k, failed, htext', hconsistent.holds_of_entry htext' hentry,
    hfailed, ?_, ?_, ?_⟩
  · rw [nodes, hcontent]
    exact hsound.mounted.nodes_detached hentry.reachable hentry.links (Disk.leaf_of_file hleaf) []
  · rw [hcontent]
    rfl
  · have hvolume : failed.volume = (fs.content.after [fs.content.disk.detached parent k,
        .mark (fs.content.disk.released id) false]).volume := congrArg Content.volume hcontent
    rw [hvolume, Nat.add_assoc, Nat.add_comm 1, ← hfile.length_released hsound]
    exact hsound.length_clear_released hid

theorem write_unstored (hsound : fs.content.Sound diskSize)
    (hfaults : fs.device.faults = Faults.none) {text : String} {path : Path} {id : UInt32}
    {offset : Nat} {bytes : List UInt8} {response : Response} (hfile : fs.FileAt text path id)
    (hbytes : bytes ≠ []) (hgranted : fs.outcome now (.write text offset bytes) = .ok response) :
    ∃ failed, perform now (.write text offset bytes) (fs.withFaults (Faults.onBlock id)) =
        .error (.refused .io) failed ∧ failed.nodes = fs.nodes ∧
      failed.content.free + (blocksToHold (offset + bytes.length) -
        blocksToHold (fs.file id).bytes.length) = fs.content.free := by
  obtain ⟨blocks, hextends, heffects⟩ := effects_write hsound hfaults hfile hbytes hgranted
  have hgrowth : ∀ effect ∈ Effect.growth blocks, effect.Bookkeeping := fun _ heffect =>
    Effect.bookkeeping_growth heffect
  have hid : id ≠ bitmapId := fun heq =>
    hsound.mounted.not_structural (.inr heq) (.inl hextends.reachable)
  obtain ⟨hallowed, hlast, -⟩ := Effect.allAllowed_append.mp (hsound.restores_request heffects).1
  obtain ⟨failed, hfailed, hcontent⟩ := perform_unwritten hsound.mounted.fits heffects rfl
    (fun effect heffect htarget => hid (hgrowth effect heffect id htarget)) rfl hallowed hlast
  refine ⟨failed, hfailed, ?_, ?_⟩
  · rw [nodes, hcontent]
    exact hsound.mounted.nodes_bookkeeping hgrowth
  · have hfree := Content.free_after hallowed
    rw [Effect.balance_growth, ← hcontent, hextends.length, hfile.blockCount_eq hsound] at hfree
    omega

/-! ### The blocks of the tree -/

/-- The states that calls lead to from a freshly formatted file system of the given size, when each
call meets a plan of faults of its own and only those that make a file meet none. -/
inductive Endured (diskSize : UInt32) : FileSystem → Prop
  | formatted {device device' : Device} {volume : Volume} {now : UInt32}
      (hformat : Device.format diskSize now device = .ok volume device') :
      Endured diskSize ⟨device', volume⟩
  | called {fs : FileSystem} (now : UInt32) (request : Request) (faults : Faults)
      (h : Endured diskSize fs) (hcreate : request.IsCreate → faults = Faults.none) :
      Endured diskSize ((fs.withFaults faults).after now request)

theorem Endured.safe {diskSize : UInt32} {fs : FileSystem} (h : Endured diskSize fs) :
    fs.content.Safe diskSize := by
  induction h with
  | formatted hformat => exact (Device.sound_of_format hformat).safe
  | @called fs now request faults _ hnone ih =>
    by_cases hcreate : request.IsCreate
    · exact safe_after_create (fs.withFaults faults) ih (hnone hcreate) now hcreate
    · exact safe_after (fs.withFaults faults) ih now hcreate

/-- Whatever fails, the blocks of the tree stay marked after every call. -/
theorem Endured.live_blocks_marked {diskSize : UInt32} {fs : FileSystem}
    (h : Endured diskSize fs) : fs.content.LiveBlocksMarked diskSize :=
  h.safe.liveBlocksMarked

/-- A file is created in a new file system, and then the bitmap cannot be written while it is
deleted: the file is gone. -/
theorem live_blocks_marked_after_failed_removal : ∃ volume device fs id failed,
    Device.format 16 0 (Device.ofDisk (Disk.blank 16)) = .ok volume device ∧
      perform 1 (.create "/a" 0o644 .regular ⟨0, 0⟩)
        ((FileSystem.mk device volume).withFaults Faults.none) = .ok (.inode id) fs ∧
      perform 2 (.deleteFile "/a") (fs.withFaults Faults.onBitmap) =
        .error (.refused .io) failed ∧
      fs.nodes id = some .file ∧ failed.nodes id = none ∧
      failed.content.LiveBlocksMarked 16 := by
  obtain ⟨volume, device, fs, id, hformat, hperform, -, hsound, hfile, -⟩ :=
    exists_created_afresh
  obtain ⟨_, _, parent, slots, k, failed, -, hholds, hfailed, hnodes, -⟩ :=
    deleteFile_unsaved hsound hfile
  have hparent : id ≠ parent := by
    rintro rfl
    cases hfile.file.symm.trans hholds.directory
  have hcreated : Endured 16 fs := by
    have hcalled := Endured.called 1 (.create "/a" 0o644 .regular ⟨0, 0⟩) Faults.none
      (.formatted hformat) fun _ => rfl
    rwa [after_of_ok hperform] at hcalled
  have hmarked := Endured.live_blocks_marked
    (.called 2 (.deleteFile "/a") Faults.onBitmap hcreated fun hcreate => hcreate.elim)
  rw [after_of_error hfailed] at hmarked
  refine ⟨volume, device, fs, id, failed, hformat, hperform, hfailed, hfile.file, ?_, hmarked⟩
  rw [hnodes, Function.update_of_ne hparent, Function.update_self]

/-! ### The counters -/

/-- The states that calls lead to from a freshly formatted file system of the given size, when each
call meets a plan of faults of its own: no write of the bitmap fails, and none of the blank slots of
a new directory. -/
inductive Metered (diskSize : UInt32) : FileSystem → Prop
  | formatted {device device' : Device} {volume : Volume} {now : UInt32}
      (hformat : Device.format diskSize now device = .ok volume device') :
      Metered diskSize ⟨device', volume⟩
  | called {fs : FileSystem} (now : UInt32) (request : Request) (faults : Faults)
      (h : Metered diskSize fs) (hbitmap : faults.SpareBitmap)
      (hblank : faults.SpareBlank fs.volume request) :
      Metered diskSize ((fs.withFaults faults).after now request)

theorem Metered.counted {diskSize : UInt32} {fs : FileSystem} (h : Metered diskSize fs) :
    fs.content.Safe diskSize ∧ fs.content.Counted := by
  induction h with
  | formatted hformat =>
    have hsound := Device.sound_of_format hformat
    exact ⟨hsound.safe, hsound.tracks.counts⟩
  | @called fs now request faults _ hbitmap hblank ih =>
    exact counted_after (fs.withFaults faults) ih.1 ih.2 hbitmap now hblank

/-- As long as the bitmap and the blank slots of new directories can be written, the counters agree
with the bitmap after every call. -/
theorem Metered.counters_exact {diskSize : UInt32} {fs : FileSystem} (h : Metered diskSize fs) :
    fs.content.Balanced diskSize :=
  h.counted.1.balanced h.counted.2

/-- A file is created in a new file system, and then its inode cannot be written while a byte is
written to it: the block for the byte is taken. -/
theorem counters_exact_after_failed_write : ∃ volume device fs id failed,
    Device.format 16 0 (Device.ofDisk (Disk.blank 16)) = .ok volume device ∧
      perform 1 (.create "/a" 0o644 .regular ⟨0, 0⟩)
        ((FileSystem.mk device volume).withFaults Faults.none) = .ok (.inode id) fs ∧
      perform 2 (.write "/a" 0 [7]) (fs.withFaults (Faults.onBlock id)) =
        .error (.refused .io) failed ∧
      failed.content.free + 1 = fs.content.free ∧ failed.content.Balanced 16 := by
  obtain ⟨volume, device, fs, id, hformat, hperform, hfaults, hsound, hfile, hempty, hfree⟩ :=
    exists_created_afresh
  have hgranted : fs.outcome 2 (.write "/a" 0 [7]) = .ok (.written 1) := by
    rw [write_outcome hsound hfaults hfile (List.cons_ne_nil _ _), hempty, hfree]
    rfl
  obtain ⟨failed, hfailed, -, hless⟩ :=
    write_unstored hsound hfaults hfile (List.cons_ne_nil _ _) hgranted
  rw [hempty] at hless
  have hid : id ≠ bitmapId := fun heq =>
    hsound.mounted.not_structural (.inr heq) (.inl (Disk.nodes_eq_file_iff.mp hfile.file).1)
  have hcreated : Metered 16 fs := by
    have hcalled := Metered.called 1 (.create "/a" 0o644 .regular ⟨0, 0⟩) Faults.none
      (.formatted hformat) (fun _ _ => rfl) trivial
    rwa [after_of_ok hperform] at hcalled
  have hbalanced := Metered.counters_exact (.called 2 (.write "/a" 0 [7]) (Faults.onBlock id)
    hcreated (fun _ _ => beq_eq_false_iff_ne.mpr (Ne.symm hid)) trivial)
  rw [after_of_error hfailed] at hbalanced
  exact ⟨volume, device, fs, id, failed, hformat, hperform, hfailed, hless, hbalanced⟩

/-! ### How the counters drift -/

/-- The bitmap has to be written: any call that is to write it and cannot fails, and leaves counters
that disagree with the bitmap in memory. -/
theorem Reached.drifts_unsaved (h : Reached diskSize fs) {request : Request} {effects : List Effect}
    (hplan : (request.effects fs.volume now).answer fs.device.disk = .ok effects)
    (hsaves : Effect.saveBitmap ∈ effects) :
    ∃ failed, perform now request (fs.withFaults Faults.onBitmap) =
        .error (.refused .io) failed ∧ failed.volume.usage = fs.volume.usage ∧
      failed.volume.usage.free.toNat ≠
        (failed.volume.bitmap.clear reservedBlocks.toNat).length := by
  obtain ⟨-, hsound⟩ := h.sound
  obtain ⟨first, rest, hsplit, hothers, hallowed, husage, hclear⟩ :=
    hsound.safe.drifts_request hsound.tracks.counts hplan hsaves
  obtain ⟨failed, hfailed, hcontent⟩ :=
    perform_unsaved hsound.mounted hplan hsplit hothers hallowed
  have hvolume : failed.volume = (fs.content.after first).volume :=
    congrArg Content.volume hcontent
  refine ⟨failed, hfailed, ?_, ?_⟩
  · rw [hvolume, husage]
    rfl
  · rw [hvolume, husage]
    exact hclear

/-- A file of the root is deleted while the bitmap cannot be written. Then its blocks are on offer
and not counted, so a file that needs them makes the counter of free blocks overflow. -/
theorem Reached.remake_overflows (h : Reached diskSize fs) {text : String} {name : Name}
    {id : UInt32}
    (hfile : fs.FileAt text [name] id) {type : FileType}
    (hfew : fs.content.free < type.blockCount) (henough : type.blockCount ≤
      fs.content.free + 1 + blocksToHold (fs.file id).bytes.length) (permissions : UInt32)
    (owner : Owner) :
    ∃ failed overflowed, perform now (.deleteFile text) (fs.withFaults Faults.onBitmap) =
        .error (.refused .io) failed ∧ failed.content.free = fs.content.free ∧
      (failed.volume.bitmap.clear reservedBlocks.toNat).length =
        fs.content.free + 1 + blocksToHold (fs.file id).bytes.length ∧
      perform now (.create text permissions type owner) (failed.withFaults Faults.none) =
        .error .overflow overflowed := by
  obtain ⟨-, hsound⟩ := h.sound
  obtain ⟨above, last, parent, slots, k, failed, htext, hholds, hfailed, hnodes, hfree, hclear⟩ :=
    deleteFile_unsaved hsound hfile
  obtain ⟨rfl, rfl⟩ : above = [] ∧ last = name := by
    have hpath : above ++ [last] = [] ++ [name] := Except.ok.inj (htext.symm.trans hfile.spelled)
    exact List.append_singleton_inj.mp hpath
  obtain rfl : parent = rootId := by
    cases hholds.walk
    rfl
  have hsafe : (failed.withFaults Faults.none).content.Safe diskSize := by
    have hdelete : ¬ (Request.deleteFile text).IsCreate := nofun
    have hafter := safe_after (fs.withFaults Faults.onBitmap) hsound.safe now hdelete
    rwa [after_of_error hfailed] at hafter
  have hnode : (failed.withFaults Faults.none).nodes rootId =
      some (.directory (Function.update slots k none)) := by
    show failed.nodes rootId = _
    rw [hnodes, Function.update_self]
  have habsent : ∀ j child, Function.update slots k none j ≠ some (last, child) := by
    intro j child hslot
    by_cases hj : j = k
    · rw [hj, Function.update_self] at hslot
      cases hslot
    · rw [Function.update_of_ne hj] at hslot
      exact hj (hsound.mounted.consistent.isTree.named hholds.directory hslot hholds.slot)
  obtain ⟨update, hplan⟩ := exists_create_answer hsafe.mounted now permissions owner htext
    (.here rootId) hnode habsent (Slots.length_entries_lt (Function.update_self k none slots))
    (hclear ▸ henough)
  have hshort : failed.content.free < type.blockCount := hfree ▸ hfew
  obtain ⟨overflowed, hoverflow⟩ := create_overflows hsafe rfl hplan hshort
  exact ⟨failed, overflowed, hfailed, hfree, hclear, hoverflow⟩

/-- In a new file system of 6 blocks a file is created, and the bitmap cannot be written while it is
deleted: one block is counted as free and two are clear, and a directory takes both. -/
theorem drift_after_failed_removal : ∃ volume device fs id failed overflowed,
    Device.format 6 0 (Device.ofDisk (Disk.blank 6)) = .ok volume device ∧
      perform 1 (.create "/a" 0o644 .regular ⟨0, 0⟩) ⟨device, volume⟩ = .ok (.inode id) fs ∧
      perform 2 (.deleteFile "/a") (fs.withFaults Faults.onBitmap) =
        .error (.refused .io) failed ∧
      failed.volume.usage.free.toNat = 1 ∧
      (failed.volume.bitmap.clear reservedBlocks.toNat).length = 2 ∧
      perform 2 (.create "/a" 0o755 .directory ⟨0, 0⟩) (failed.withFaults Faults.none) =
        .error .overflow overflowed := by
  have hfit : Superblock.checkFit 6 (6 : UInt32).toNat = .ok () := rfl
  obtain ⟨volume, device, fs, id, hformat, hperform, hafter, hfile, hempty, hfree⟩ :=
    exists_created_file_in hfit (by decide)
  have hone : fs.content.free = 1 := Nat.add_right_cancel hfree
  have htwo : fs.content.free + 1 + blocksToHold (fs.file id).bytes.length = 2 := by
    rw [hone, hempty]
    rfl
  have hfew : fs.content.free < FileType.directory.blockCount := hone ▸ Nat.lt_succ_self 1
  obtain ⟨failed, overflowed, hfailed, hfree, hclear, hoverflow⟩ :=
    hafter.remake_overflows hfile hfew (Nat.le_of_eq htwo.symm) 0o755 ⟨0, 0⟩
  exact ⟨volume, device, fs, id, failed, overflowed, hformat, hperform, hfailed,
    hfree.trans hone, hclear.trans htwo, hoverflow⟩

theorem create_unblanked (hsound : fs.content.Sound diskSize) {text : String} {path : Path}
    {name : Name} {permissions parent id block : UInt32} {k : Fin slotCount} {owner : Owner}
    {update : Update UInt32} (hwalk : fs.content.disk.walk rootId path = .ok parent)
    (hcreates : fs.content.Creates diskSize parent k name id [block] .directory)
    (hplan : (fs.volume.create now text permissions .directory owner).answer fs.device.disk =
      .ok update)
    (hupdate : update = ⟨id, fs.content.creation parent k name id [block]
      (Inode.fresh .directory permissions owner now block) ++ Effect.allocate [id, block]⟩)
    (hzero : fs.content.disk.block block = Block.zero) :
    ∃ failed, perform now (.create text permissions .directory owner)
        (fs.withFaults (Faults.onBlock block)) = .error (.refused .io) failed ∧
      failed.volume = fs.volume ∧ failed.content.Mounted diskSize ∧
      (∃ directory slot, failed.content.disk.Entry path name directory slot id) ∧
      (failed.content.disk.inode id).isDirectory = true ∧
      (∀ j, ((failed.content.disk.slots id).get j).used = false) ∧
      failed.content.disk.released id = [id, block] := by
  have hmounted := hsound.mounted
  have hwritten := hcreates.written_unblanked hmounted hzero permissions now owner
  have hblock := hcreates.spare block (List.mem_cons_of_mem id List.mem_cons_self)
  have heffects : ((Request.create text permissions .directory owner).effects fs.volume
      now).answer fs.device.disk = .ok _ := Query.answer_map_eq_ok.mpr ⟨_, hplan, rfl⟩
  have hsplit : update.effects = fs.content.linking parent k name id
      (Inode.fresh .directory permissions owner now block) ++
        .store block Block.zero :: Effect.allocate [id, block] := by
    rw [hupdate]
    rfl
  have hlast : (Effect.store block Block.zero).Allowed (fs.content.after
      (fs.content.linking parent k name id
        (Inode.fresh .directory permissions owner now block))) := by
    rw [Effect.Allowed, Content.size_after]
    exact hmounted.lt_size hblock.high
  obtain ⟨failed, hfailed, hcontent⟩ := perform_unwritten hmounted.fits heffects hsplit
    (hcreates.target_ne_blank _) rfl hwritten.allowed hlast
  have hrelists := hcreates.relists_past hmounted
    (Inode.fresh .directory permissions owner now block) (List.forall_mem_nil _)
  rw [Content.after_nil, ← hcontent] at hrelists
  exact ⟨failed, hfailed, (congrArg Content.volume hcontent).trans hwritten.volume,
    hcontent ▸ hwritten.mounted, Disk.walk_concat_eq_ok_iff.mp
      (hrelists.walk_new hmounted.consistent hcreates.component hcreates.absent hwalk),
    hcreates.directory_unblanked hzero permissions now owner (congrArg Content.disk hcontent)⟩

theorem deleteDirectory_unmarked (hmounted : fs.content.Mounted diskSize) {text : String}
    {path : Path} {name : Name} {parent id : UInt32} {k : Fin slotCount}
    (htext : Path.ofString text = .ok (path ++ [name]))
    (hentry : fs.content.disk.Entry path name parent k id)
    (hdirectory : (fs.content.disk.inode id).isDirectory = true)
    (hunused : ∀ j, ((fs.content.disk.slots id).get j).used = false)
    (hclear : ∀ block ∈ fs.content.disk.released id,
      block < diskSize ∧ Bitmap.isSet fs.volume.bitmap.map block.toNat = false)
    (hroom : fs.content.free + (fs.content.disk.released id).length < UInt32.size) :
    ∃ removed, perform now (.deleteDirectory text) (fs.withFaults Faults.none) =
        .ok .done removed ∧ removed.volume.bitmap = fs.volume.bitmap ∧
      removed.content.free = fs.content.free + (fs.content.disk.released id).length := by
  have hplan : ((fs.withFaults Faults.none).volume.deleteDirectory text).answer
      (fs.withFaults Faults.none).device.disk = .ok _ := hmounted.deleteDirectory_eq_ok.mpr
    ⟨path, name, parent, k, id, htext, hentry, hdirectory, hunused, rfl⟩
  have hallowed := hmounted.allowed_detach hentry.reachable hentry.links
    (Disk.leaf_of_unused hunused) (fun block hblock => (hclear block hblock).1) hroom
  have hfits : (fs.withFaults Faults.none).volume.bitmap.Fits := hmounted.fits
  obtain ⟨removed, hremoved, hcontent⟩ := perform_of_allowed hfits rfl
    (transacts_deleteDirectory now text) hplan hallowed
  refine ⟨removed, hremoved, ?_, ?_⟩
  · have hmarked : fs.volume.bitmap.marked (fs.content.disk.released id) false =
        fs.volume.bitmap := Bitmap.marked_of_clear hmounted.fits fun block hblock =>
      ⟨hmounted.bitmap ▸ (hclear block hblock).1, (hclear block hblock).2⟩
    refine (congrArg (fun c : Content => c.volume.bitmap) hcontent).trans (Eq.trans ?_ hmarked)
    rw [Disk.released_directory hdirectory]
    exact Effect.bitmap_credit _ _
  · have hcounted := Content.free_after hallowed
    rw [Effect.balance_cons, Effect.balance_deallocate, Disk.detached,
      Effect.gain_storeSlots] at hcounted
    rw [hcontent]
    refine Int.ofNat_inj.mp (hcounted.trans ?_)
    omega

/-- A directory is made while the block for its slots, which holds zeros, cannot be written. Then it
is linked and its blocks are not marked, so removing it counts them as free once more. -/
theorem Reached.drifts_unblanked (h : Reached diskSize fs) {text : String} {permissions id : UInt32}
    {owner : Owner}
    (hperform : perform now (.create text permissions .directory owner) fs = .ok (.inode id) fs') :
    ∃ block, fs.volume.bitmap.firstFit reservedBlocks FileType.directory.blockCount =
        .ok [id, block] ∧
      (fs.content.disk.block block = Block.zero → ∃ failed removed,
        perform now (.create text permissions .directory owner)
          (fs.withFaults (Faults.onBlock block)) = .error (.refused .io) failed ∧
        perform now (.deleteDirectory text) (failed.withFaults Faults.none) = .ok .done removed ∧
        removed.content.free =
          (removed.volume.bitmap.clear reservedBlocks.toNat).length + 2) := by
  obtain ⟨hfaults, hsound⟩ := h.sound
  obtain ⟨update, hplan, hresponse, -⟩ := granted_of_perform hsound hfaults
    (transacts_create now text permissions .directory owner) hperform
  obtain ⟨path, name, parent, k, child, blank, htext, hwalk, hcreates, hfit, hupdate⟩ :=
    hsound.safe.of_create hplan
  obtain rfl : id = child := (Response.inode.inj hresponse).trans (congrArg Update.result hupdate)
  obtain ⟨block, rfl⟩ : ∃ block, blank = [block] :=
    List.length_eq_one_iff.mp (Nat.succ.inj hcreates.length)
  refine ⟨block, hfit, fun hzero => ?_⟩
  obtain ⟨failed, hfailed, hvolume, hmounted, ⟨directory, slot, hentry⟩, hdirectory, hunused,
    hreleased⟩ := create_unblanked hsound hwalk hcreates hplan hupdate hzero
  have hoffers := Bitmap.offers_of_firstFit hsound.mounted.fits hfit
  have hclear : ∀ other ∈ failed.content.disk.released id,
      other < diskSize ∧ Bitmap.isSet failed.volume.bitmap.map other.toNat = false := by
    intro other hother
    rw [hreleased] at hother
    rw [hvolume]
    exact ⟨(hcreates.spare other hother).high,
      (Bitmap.mem_clear.mp (hoffers.clear other hother)).2.2⟩
  have hfree : failed.content.free = (fs.volume.bitmap.clear reservedBlocks.toNat).length :=
    (congrArg (fun v : Volume => v.usage.free.toNat) hvolume).trans hsound.tracks.counts.free
  have hroom : failed.content.free + (failed.content.disk.released id).length < UInt32.size := by
    have hlength := fs.volume.bitmap.length_clear_le reservedBlocks.toNat
    have hhigh : fs.volume.bitmap.blocks.toNat ≤ maxDiskBlocks := hsound.mounted.fits
    have hlimit : maxDiskBlocks + 2 < UInt32.size := by decide
    rw [hfree, hreleased, List.length_cons, List.length_singleton]
    omega
  obtain ⟨removed, hremoved, hbitmap, hcounted⟩ :=
    deleteDirectory_unmarked hmounted htext hentry hdirectory hunused hclear hroom
  refine ⟨failed, removed, hfailed, hremoved, ?_⟩
  rw [hbitmap, hvolume, hcounted, hreleased, hfree]
  rfl

/-- The first directory of a new file system is made while its slots cannot be written, and then
removed. -/
theorem drift_after_unblanked_create : ∃ volume device block failed removed,
    Device.format 16 0 (Device.ofDisk (Disk.blank 16)) = .ok volume device ∧
      perform 1 (.create "/d" 0o755 .directory ⟨0, 0⟩)
        ((FileSystem.mk device volume).withFaults (Faults.onBlock block)) =
          .error (.refused .io) failed ∧
      perform 1 (.deleteDirectory "/d") (failed.withFaults Faults.none) = .ok .done removed ∧
      removed.content.free = (removed.volume.bitmap.clear reservedBlocks.toNat).length + 2 := by
  obtain ⟨volume, device, hformat⟩ := Device.exists_formatted_blank
  have hreached : Reached 16 ⟨device, volume⟩ := .formatted rfl hformat
  obtain ⟨hfaults, hsound⟩ := hreached.sound
  have htext : Path.ofString "/d" = .ok ([] ++ [[100]]) := by rfl
  have hunused : ∀ k, device.disk.slotEntries rootId k = none := by
    intro k
    rw [Disk.slotEntries_eq_none_iff, Device.slots_of_format hformat, Directory.get_empty]
    rfl
  have hroot : (FileSystem.mk device volume).nodes rootId =
      some (.directory (device.disk.slotEntries rootId)) :=
    Disk.nodes_eq_directory_iff.mpr
      ⟨Disk.reachable_root, hsound.mounted.consistent.root_directory, rfl⟩
  have hclear := Device.clear_of_format hformat
  have hfree : FileType.directory.blockCount ≤
      (volume.bitmap.clear reservedBlocks.toNat).length := by
    rw [hclear, List.length_range']
    decide
  obtain ⟨update, hplan⟩ := exists_create_answer hsound.mounted 1 0o755 ⟨0, 0⟩ htext (.here rootId)
    hroot (fun k child hslot => nomatch (hunused k).symm.trans hslot)
    (Slots.length_entries_lt (hunused ⟨0, by decide⟩)) hfree
  obtain ⟨created, hcreated, -⟩ := perform_of_granted hsound hfaults
    (transacts_create 1 "/d" 0o755 .directory ⟨0, 0⟩) hplan
  obtain ⟨block, hfit, hdrifts⟩ := hreached.drifts_unblanked hcreated
  have hlow : firstFreeId ≤ block := by
    have hmem : block.toNat ∈ volume.bitmap.clear reservedBlocks.toNat :=
      (Bitmap.offers_of_firstFit hsound.mounted.fits hfit).clear block
        (List.mem_cons_of_mem _ List.mem_cons_self)
    rw [hclear] at hmem
    exact UInt32.le_iff_toNat_le.mpr (List.mem_range'_1.mp hmem).1
  have hzero : device.disk.block block = Block.zero :=
    (Device.block_of_format hformat hlow).trans Std.TreeMap.getD_emptyc
  obtain ⟨failed, removed, hdrift⟩ := hdrifts hzero
  exact ⟨volume, device, block, failed, removed, hformat, hdrift⟩

end FileSystem

end BlockFS
