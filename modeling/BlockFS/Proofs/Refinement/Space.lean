import BlockFS.Proofs.Refinement.Files
import BlockFS.Proofs.Space.Balance
import BlockFS.Proofs.Volume.Grants

/-!
What calls take of the space and give back. As long as the counter of free blocks shows enough of
them a call is granted, and it is counted for the blocks by which the file has grown or shrunk. The
counter, the bitmap and the sizes of files never disagree about how many blocks that is.
-/

set_option autoImplicit false
set_option relaxedAutoImplicit false

namespace BlockFS

def Request.KeepsSpace : Request → Prop
  | .create .. | .deleteFile .. | .deleteDirectory .. | .truncate .. | .write .. => False
  | _ => True

namespace FileSystem

/-- Space is granted exactly while it is there, and is counted exactly. -/
structure AccountsSpace (fs : FileSystem) : Prop where
  create : ∀ {now text permissions type owner path name parent slots},
    Path.ofString text = .ok (path ++ [name]) → fs.nodes.Walks rootId path (.ok parent) →
    fs.nodes parent = some (.directory slots) → (∀ k child, slots k ≠ some (name, child)) →
      ((∃ id, fs.outcome now (.create text permissions type owner) = .ok (.inode id)) ↔
        slots.entries.length < slotCount ∧ type.blockCount ≤ fs.content.free) ∧
      (¬ (slots.entries.length < slotCount ∧ type.blockCount ≤ fs.content.free) →
        fs.outcome now (.create text permissions type owner) = .error (.refused .noSpace))
  write : ∀ {now text path id offset} {bytes : List UInt8}, fs.FileAt text path id → bytes ≠ [] →
    fs.outcome now (.write text offset bytes) =
      if (fs.file id).bytes.length < offset then .error (.refused .invalidArgument)
      else if maxFileSize < offset + bytes.length then .error (.refused .fileTooLarge)
      else if fs.content.free <
          blocksToHold (max (fs.file id).bytes.length (offset + bytes.length)) -
            blocksToHold (fs.file id).bytes.length then .error (.refused .noSpace)
      else .ok (.written bytes.length)
  created : ∀ {now text permissions type owner response fs'},
    perform now (.create text permissions type owner) fs = .ok response fs' →
      fs'.content.free + type.blockCount = fs.content.free
  written : ∀ {now text offset bytes response fs'},
    perform now (.write text offset bytes) fs = .ok response fs' →
      ∃ path id, fs.FileAt text path id ∧
        fs'.content.free + blocksToHold (fs'.file id).bytes.length =
          fs.content.free + blocksToHold (fs.file id).bytes.length
  truncated : ∀ {now text} {length : Int} {response fs'},
    perform now (.truncate text length) fs = .ok response fs' →
      ∃ path id, fs.FileAt text path id ∧ fs'.content.free + blocksToHold length.toNat =
        fs.content.free + blocksToHold (fs.file id).bytes.length
  deletedFile : ∀ {now text response fs'}, perform now (.deleteFile text) fs = .ok response fs' →
    ∃ path id, fs.FileAt text path id ∧
      fs'.content.free = fs.content.free + 1 + blocksToHold (fs.file id).bytes.length
  deletedDirectory : ∀ {now text response fs'},
    perform now (.deleteDirectory text) fs = .ok response fs' →
      fs'.content.free = fs.content.free + 2
  others : ∀ {now} {request : Request} {response fs'}, request.KeepsSpace →
    perform now request fs = .ok response fs' → fs'.content.free = fs.content.free

theorem exists_create_answer {fs : FileSystem} {diskSize : UInt32}
    (hmounted : fs.content.Mounted diskSize) (now permissions : UInt32) {type : FileType}
    (owner : Owner) {text : String} {path : Path} {name : Name} {parent : UInt32} {slots : Slots}
    (htext : Path.ofString text = .ok (path ++ [name]))
    (hwalk : fs.nodes.Walks rootId path (.ok parent))
    (hnode : fs.nodes parent = some (.directory slots))
    (habsent : ∀ k child, slots k ≠ some (name, child)) (hroom : slots.entries.length < slotCount)
    (hclear : type.blockCount ≤ (fs.volume.bitmap.clear reservedBlocks.toNat).length) :
    ∃ update, (fs.volume.create now text permissions type owner).answer fs.device.disk =
      .ok update := by
  obtain ⟨-, hdirectory, rfl⟩ := Disk.nodes_eq_directory_iff.mp hnode
  have hname : Path.IsComponent name := Path.isComponent_of_ofString htext (by simp)
  have hparent : fs.content.disk.walk rootId path = .ok parent :=
    hmounted.consistent.walk_of_walks hwalk Disk.reachable_root fun other hother =>
      Path.isComponent_of_ofString htext (List.mem_append_left _ hother)
  have hcount : type.blockCount ≤ pointerCount := by
    cases type <;> decide
  rw [Disk.entries_slotEntries, List.length_map, ← Directory.firstUnused_isSome_iff] at hroom
  obtain ⟨k, hunused⟩ := Option.isSome_iff_exists.mp hroom
  obtain ⟨blocks, hblocks⟩ := Bitmap.exists_firstFit hmounted.fits hcount hclear
  have hlength := (Bitmap.offers_of_firstFit hmounted.fits hblocks).length
  obtain ⟨id, blank, rfl⟩ : ∃ id blank, blocks = id :: blank := by
    refine List.exists_cons_of_length_pos ?_
    rw [hlength]
    cases type <;> decide
  exact ⟨_, hmounted.create_answer now permissions type owner htext hparent hdirectory
    ((Disk.slotEntries_of_find_none hname).mpr habsent) hunused hblocks⟩

section

variable {fs fs' : FileSystem} {diskSize now : UInt32} (hsound : fs.content.Sound diskSize)
  (hfaults : fs.device.faults = Faults.none)

include hsound

theorem free_eq :
    fs.content.free = (fs.content.volume.bitmap.clear reservedBlocks.toNat).length :=
  hsound.tracks.counts.free

theorem FileAt.blockCount_eq {text : String} {path : Path} {id : UInt32}
    (hfile : fs.FileAt text path id) :
    (fs.content.disk.inode id).blockCount = blocksToHold (fs.file id).bytes.length := by
  obtain ⟨-, hwalk, -⟩ := (fileAt_iff hsound.mounted).mp hfile
  rw [length_bytes]
  exact (hsound.mounted.consistent.formed
    (Disk.walk_reachable Disk.reachable_root hwalk)).blockCount

theorem FileAt.length_released {text : String} {path : Path} {id : UInt32}
    (hfile : fs.FileAt text path id) : (fs.content.disk.released id).length =
      blocksToHold (fs.file id).bytes.length + 1 := by
  obtain ⟨-, hleaf⟩ := Disk.nodes_eq_file_iff.mp hfile.file
  rw [Disk.released_file hleaf, List.length_append, Inode.length_ownBlocks,
    hfile.blockCount_eq hsound, List.length_singleton]

include hfaults

/-! ### What is granted -/

theorem create_outcome {text : String} {permissions : UInt32} {type : FileType} {owner : Owner}
    {path : Path} {name : Name} {parent : UInt32} {slots : Slots}
    (htext : Path.ofString text = .ok (path ++ [name]))
    (hwalk : fs.nodes.Walks rootId path (.ok parent))
    (hnode : fs.nodes parent = some (.directory slots))
    (habsent : ∀ k child, slots k ≠ some (name, child)) :
    ((∃ id, fs.outcome now (.create text permissions type owner) = .ok (.inode id)) ↔
      slots.entries.length < slotCount ∧ type.blockCount ≤ fs.content.free) ∧
    (¬ (slots.entries.length < slotCount ∧ type.blockCount ≤ fs.content.free) →
      fs.outcome now (.create text permissions type owner) = .error (.refused .noSpace)) := by
  obtain ⟨-, hdirectory, rfl⟩ := Disk.nodes_eq_directory_iff.mp hnode
  have hname : Path.IsComponent name := Path.isComponent_of_ofString htext (by simp)
  have hfind := (Disk.slotEntries_of_find_none hname).mpr habsent
  have hparent : fs.content.disk.walk rootId path = .ok parent :=
    hsound.mounted.consistent.walk_of_walks hwalk Disk.reachable_root fun other hother =>
      Path.isComponent_of_ofString htext (List.mem_append_left _ hother)
  have hcount : type.blockCount ≤ pointerCount := by
    cases type <;> decide
  have hslots : (fs.content.disk.slotEntries parent).entries.length < slotCount ↔
      (fs.content.disk.slots parent).firstUnused.isSome := by
    rw [Disk.entries_slotEntries, List.length_map, Directory.firstUnused_isSome_iff]
  have houtcome := outcome_transacts hsound hfaults
    (transacts_create now text permissions type owner)
  rw [hslots, free_eq hsound]
  have hrefused (hroom : ¬ ((fs.content.disk.slots parent).firstUnused.isSome ∧
      type.blockCount ≤ (fs.content.volume.bitmap.clear reservedBlocks.toNat).length)) :
      fs.outcome now (.create text permissions type owner) = .error (.refused .noSpace) := by
    have hplan := hsound.mounted.create_answer_noSpace now permissions type owner htext hparent
      hdirectory hfind <| (not_and_or.mp hroom).imp Option.not_isSome_iff_eq_none.mp
        fun hfew => Bitmap.firstFit_eq_noSpace hsound.mounted.fits hcount (Nat.lt_of_not_le hfew)
    exact houtcome.trans (congrArg (Except.map fun update => Response.inode update.result) hplan)
  refine ⟨⟨?_, ?_⟩, hrefused⟩
  · rintro ⟨id, hgranted⟩
    by_contra hroom
    cases hgranted.symm.trans (hrefused hroom)
  · rintro ⟨hunused, hfree⟩
    obtain ⟨update, hplan⟩ := exists_create_answer hsound.mounted now permissions owner htext hwalk
      hnode habsent (hslots.mpr hunused) hfree
    exact ⟨update.result, houtcome.trans
      (congrArg (Except.map fun update => Response.inode update.result) hplan)⟩

theorem write_outcome {text : String} {path : Path} {id : UInt32} {offset : Nat}
    {bytes : List UInt8} (hfile : fs.FileAt text path id) (hbytes : bytes ≠ []) :
    fs.outcome now (.write text offset bytes) =
      if (fs.file id).bytes.length < offset then .error (.refused .invalidArgument)
      else if maxFileSize < offset + bytes.length then .error (.refused .fileTooLarge)
      else if fs.content.free <
          blocksToHold (max (fs.file id).bytes.length (offset + bytes.length)) -
            blocksToHold (fs.file id).bytes.length then .error (.refused .noSpace)
      else .ok (.written bytes.length) := by
  obtain ⟨htext, hwalk, hregular⟩ := (fileAt_iff hsound.mounted).mp hfile
  have hid := Disk.walk_reachable Disk.reachable_root hwalk
  have hresolve := (Disk.resolve_zero htext).trans hwalk
  have hplan : (fs.volume.write now text offset bytes).answer fs.device.disk =
      fs.volume.writeFile now id (fs.content.disk.inode id) offset bytes :=
    (Query.answer_bind_of_ok (hsound.mounted.locate_answer_ok hresolve) _).trans
      (Query.answer_lift _ _)
  -- A write that ends inside the file lacks no blocks, nor does the larger of the two sizes.
  have hlacks : blocksToHold (max (fs.file id).bytes.length (offset + bytes.length)) -
      blocksToHold (fs.file id).bytes.length =
        blocksToHold (offset + bytes.length) - blocksToHold (fs.file id).bytes.length := by
    rcases Nat.le_total (fs.file id).bytes.length (offset + bytes.length) with hle | hle
    · rw [Nat.max_eq_right hle]
    · have := blocksToHold_mono hle
      rw [Nat.max_eq_left hle]
      omega
  have hgrant : (fs.volume.writeFile now id (fs.content.disk.inode id) offset bytes).map
      Update.result = _ :=
    Volume.map_writeFile hsound.mounted.fits (hsound.mounted.storeInode hid)
      (hsound.mounted.consistent.formed hid) hregular hbytes
  rw [hfile.blockCount_eq hsound, ← hlacks, ← length_bytes] at hgrant
  rw [outcome_transacts hsound hfaults (transacts_write now text offset bytes), hplan,
    free_eq hsound]
  refine (comp_map Update.result Response.written
    (fs.volume.writeFile now id (fs.content.disk.inode id) offset bytes)).trans ?_
  refine (congrArg (Except.map Response.written) hgrant).trans ?_
  split_ifs <;> rfl

/-! ### What is counted -/

theorem free_of_granted {α : Type} {request : Request} {plan : Volume → Query (Update α)}
    {f : α → Response} (h : Transacts now request plan f) {response : Response}
    (hperform : perform now request fs = .ok response fs') :
    ∃ update, (plan fs.volume).answer fs.device.disk = .ok update ∧
      fs'.content = fs.content.after update.effects ∧
      (fs'.content.free : Int) = fs.content.free + Effect.balance update.effects := by
  obtain ⟨update, hplan, -, hcontent⟩ := granted_of_perform hsound hfaults h hperform
  have heffects : (request.effects fs.volume now).answer fs.device.disk = .ok update.effects := by
    rw [h.effects]
    exact Query.answer_map_eq_ok.mpr ⟨update, hplan, rfl⟩
  refine ⟨update, hplan, hcontent, ?_⟩
  rw [hcontent]
  exact Content.free_after (hsound.restores_request heffects).1

theorem free_of_create {text : String} {permissions : UInt32} {type : FileType} {owner : Owner}
    {response : Response}
    (hperform : perform now (.create text permissions type owner) fs = .ok response fs') :
    fs'.content.free + type.blockCount = fs.content.free := by
  obtain ⟨update, hplan, -, hfree⟩ := free_of_granted hsound hfaults
    (transacts_create now text permissions type owner) hperform
  obtain ⟨path, name, parent, k, id, blank, -, -, -, -, -, hblocks, rfl⟩ :=
    hsound.mounted.of_create hplan
  have hblank : Effect.balance (blank.map fun block => .store block Block.zero) = 0 := by
    refine Effect.balance_of_writes fun effect heffect => ?_
    obtain ⟨block, -, rfl⟩ := List.mem_map.mp heffect
    trivial
  simp only [Effect.balance_cons, Effect.balance_append, Effect.balance_allocate, hblank,
    Disk.attached, Effect.gain_store, Effect.gain_storeSlots,
    (Bitmap.offers_of_firstFit hsound.mounted.fits hblocks).length] at hfree
  omega

theorem free_of_write {text : String} {offset : Nat} {bytes : List UInt8} {response : Response}
    (hperform : perform now (.write text offset bytes) fs = .ok response fs') :
    ∃ path id, fs.FileAt text path id ∧
      fs'.content.free + blocksToHold (fs'.file id).bytes.length =
        fs.content.free + blocksToHold (fs.file id).bytes.length := by
  obtain ⟨update, hplan, hcontent, hfree⟩ := free_of_granted hsound hfaults
    (transacts_write now text offset bytes) hperform
  obtain ⟨id, hresolve, hregular, hoffset, ⟨rfl, rfl⟩ | ⟨hbytes, blocks, -, hextends, rfl⟩⟩ :=
    hsound.safe.of_write hplan
  all_goals obtain ⟨path, hat⟩ := fileAt_of_resolve hsound.mounted hresolve hregular
  · refine ⟨path, id, hat, ?_⟩
    rw [file, file, hcontent]
    rfl
  · refine ⟨path, id, hat, ?_⟩
    have hsize : (fs'.file id).bytes.length =
        max (fs.content.disk.inode id).length (offset + bytes.length) := by
      obtain ⟨-, -, hupdates⟩ := write_refines hsound hfaults hresolve hbytes hperform
      rw [hupdates.file, List.length_append, List.length_append, List.length_take,
        List.length_drop, length_bytes]
      omega
    have hformed := hsound.mounted.consistent.formed hextends.reachable
    have hgrown := Inode.blocksToHold_written hformed hextends.length
    rw [← hsize, hat.blockCount_eq hsound] at hgrown
    rw [Effect.balance_append, Effect.balance_growth, Effect.balance_cons, Effect.balance_patches,
      Effect.gain_store] at hfree
    omega

theorem free_of_truncate {text : String} {length : Int} {response : Response}
    (hperform : perform now (.truncate text length) fs = .ok response fs') :
    ∃ path id, fs.FileAt text path id ∧ fs'.content.free + blocksToHold length.toNat =
      fs.content.free + blocksToHold (fs.file id).bytes.length := by
  obtain ⟨update, hplan, -, hfree⟩ := free_of_granted hsound hfaults
    (transacts_truncate now text length) hperform
  obtain ⟨id, hresolve, hregular, -, hlength, rfl⟩ := hsound.mounted.of_truncate hplan
  obtain ⟨path, hat⟩ := fileAt_of_resolve hsound.mounted hresolve hregular
  have hmono := blocksToHold_mono hlength
  rw [Effect.balance_cons, Effect.balance_deallocate, Inode.length_dropped,
    hat.blockCount_eq hsound, Effect.gain_store] at hfree
  rw [← length_bytes] at hmono
  exact ⟨path, id, hat, by omega⟩

theorem free_of_deleteFile {text : String} {response : Response}
    (hperform : perform now (.deleteFile text) fs = .ok response fs') :
    ∃ path id, fs.FileAt text path id ∧
      fs'.content.free = fs.content.free + 1 + blocksToHold (fs.file id).bytes.length := by
  obtain ⟨update, hplan, -, hfree⟩ := free_of_granted hsound hfaults
    (transacts_deleteFile now text) hperform
  obtain ⟨above, name, parent, k, id, htext, hentry, hfile, rfl⟩ :=
    hsound.mounted.deleteFile_eq_ok.mp hplan
  have hresolve := hentry.resolve htext
  obtain ⟨path, hat⟩ := fileAt_of_resolve hsound.mounted hresolve
    ((hsound.mounted.consistent.formed (Disk.resolve_reachable hresolve)).isRegular hfile)
  rw [Effect.balance_cons, Effect.balance_deallocate, hat.length_released hsound, Disk.detached,
    Effect.gain_storeSlots] at hfree
  exact ⟨path, id, hat, by omega⟩

theorem free_of_deleteDirectory {text : String} {response : Response}
    (hperform : perform now (.deleteDirectory text) fs = .ok response fs') :
    fs'.content.free = fs.content.free + 2 := by
  obtain ⟨update, hplan, -, hfree⟩ := free_of_granted hsound hfaults
    (transacts_deleteDirectory now text) hperform
  obtain ⟨path, name, parent, k, id, -, -, hdirectory, -, rfl⟩ :=
    hsound.mounted.deleteDirectory_eq_ok.mp hplan
  rw [Effect.balance_cons, Effect.balance_deallocate, Disk.released_directory hdirectory,
    Disk.detached, Effect.gain_storeSlots, List.length_cons, List.length_singleton] at hfree
  omega

theorem free_of_others {request : Request} {response : Response} (hkeeps : request.KeepsSpace)
    (hperform : perform now request fs = .ok response fs') :
    fs'.content.free = fs.content.free := by
  have hsame (hnothing : request.effects fs.volume now = return []) :
      fs'.content.free = fs.content.free := by
    have hcontent := content_after hsound hfaults now request
    rw [after, hperform, hnothing] at hcontent
    exact congrArg Content.free hcontent
  have hstore {plan : Volume → Query (Update Unit)} {f : Unit → Response}
      (h : Transacts now request plan f) (hwrites : ∀ update,
        (plan fs.volume).answer fs.device.disk = .ok update → Effect.balance update.effects = 0) :
      fs'.content.free = fs.content.free := by
    obtain ⟨update, hplan, -, hfree⟩ := free_of_granted hsound hfaults h hperform
    rw [hwrites update hplan, Int.add_zero] at hfree
    exact Int.ofNat_inj.mp hfree
  cases request with
  | create | deleteFile | deleteDirectory | truncate | write => exact hkeeps.elim
  | lookup | attributes | list | read | statistics | usage | sync | remount => exact hsame rfl
  | rename source target =>
    refine hstore (transacts_rename now source target) fun update hplan => ?_
    obtain ⟨path, oldName, newName, parent, k, child, -, -, -, -, rfl⟩ :=
      hsound.mounted.of_rename hplan
    rfl
  | setPermissions text mode =>
    refine hstore (transacts_setPermissions now text mode) fun update hplan => ?_
    obtain ⟨id, -, rfl⟩ := hsound.mounted.setPermissions_eq_ok.mp hplan
    rfl
  | setModified text mtime =>
    refine hstore (transacts_setModified now text mtime) fun update hplan => ?_
    obtain ⟨id, -, -, rfl⟩ := hsound.mounted.setModified_eq_ok.mp hplan
    rfl

end

/-- Whatever calls came before, space is granted and counted exactly. -/
theorem Reached.accounts_space {diskSize : UInt32} {fs : FileSystem} (h : Reached diskSize fs) :
    fs.AccountsSpace := by
  obtain ⟨hfaults, hsound⟩ := h.sound
  exact {
    create := create_outcome hsound hfaults
    write := write_outcome hsound hfaults
    created := free_of_create hsound hfaults
    written := free_of_write hsound hfaults
    truncated := free_of_truncate hsound hfaults
    deletedFile := free_of_deleteFile hsound hfaults
    deletedDirectory := free_of_deleteDirectory hsound hfaults
    others := free_of_others hsound hfaults }

theorem free_of_formatted {device device' : Device} {diskSize made : UInt32} {volume : Volume}
    (hformat : Device.format diskSize made device = .ok volume device') :
    (FileSystem.mk device' volume).content.free = diskSize.toNat - 4 := by
  have hsound : (FileSystem.mk device' volume).content.Sound diskSize :=
    Device.sound_of_format hformat
  refine (free_eq hsound).trans ?_
  rw [show (FileSystem.mk device' volume).content.volume = volume from rfl,
    Device.clear_of_format hformat, List.length_range']

theorem exists_created_file_in {diskSize : UInt32}
    (hfit : Superblock.checkFit diskSize diskSize.toNat = .ok ()) (hroom : 4 < diskSize.toNat) :
    ∃ volume device fs id,
      Device.format diskSize 0 (Device.ofDisk (Disk.blank diskSize.toNat)) = .ok volume device ∧
        perform 1 (.create "/a" 0o644 .regular ⟨0, 0⟩) ⟨device, volume⟩ = .ok (.inode id) fs ∧
        Reached diskSize fs ∧ fs.FileAt "/a" [[97]] id ∧ (fs.file id).bytes = [] ∧
        fs.content.free + 5 = diskSize.toNat := by
  obtain ⟨volume, device, fs, id, hformat, hreached, hperform⟩ := exists_created_in hfit hroom
  have hafter : Reached diskSize fs := hreached.performed hperform
  have htext : Path.ofString "/a" = .ok [[97]] := by rfl
  obtain ⟨hwalk, hnode⟩ := create_leads hreached.sound.2 hreached.sound.1 htext hperform
  have hempty : (fs.file id).bytes = [] := by
    obtain ⟨_, _, _, _, _, other, -, -, -, -, -, -, -, hother, hcontents, -⟩ :=
      create_refines hreached.sound.2 hreached.sound.1 hperform
    rw [Response.inode.inj hother]
    exact hcontents rfl
  have hfree : fs.content.free + 1 = _ :=
    free_of_create hreached.sound.2 hreached.sound.1 hperform
  rw [free_of_formatted hformat] at hfree
  exact ⟨volume, device, fs, id, hformat, hperform, hafter, ⟨htext, hwalk, hnode⟩, hempty, by omega⟩

theorem exists_created_file : ∃ volume device fs id,
    Device.format 16 0 (Device.ofDisk (Disk.blank 16)) = .ok volume device ∧
      perform 1 (.create "/a" 0o644 .regular ⟨0, 0⟩) ⟨device, volume⟩ = .ok (.inode id) fs ∧
      Reached 16 fs ∧ fs.FileAt "/a" [[97]] id ∧ (fs.file id).bytes = [] ∧
      fs.content.free = 11 := by
  have hfit : Superblock.checkFit 16 (16 : UInt32).toNat = .ok () := rfl
  obtain ⟨volume, device, fs, id, hformat, hperform, hafter, hfile, hempty, hfree⟩ :=
    exists_created_file_in hfit (by decide)
  exact ⟨volume, device, fs, id, hformat, hperform, hafter, hfile, hempty,
    Nat.add_right_cancel hfree⟩

/-- A file is created in an empty file system. -/
theorem accounts_space_after_create : ∃ volume device fs id,
    Device.format 16 0 (Device.ofDisk (Disk.blank 16)) = .ok volume device ∧
      perform 1 (.create "/a" 0o644 .regular ⟨0, 0⟩) ⟨device, volume⟩ = .ok (.inode id) fs ∧
      (FileSystem.mk device volume).AccountsSpace ∧ fs.AccountsSpace := by
  obtain ⟨volume, device, fs, id, hformat, hreached, hperform⟩ := exists_created
  have hafter : Reached 16 fs := hreached.performed hperform
  exact ⟨volume, device, fs, id, hformat, hperform, hreached.accounts_space, hafter.accounts_space⟩

end FileSystem

end BlockFS
