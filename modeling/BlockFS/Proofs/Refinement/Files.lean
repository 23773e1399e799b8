import BlockFS.Proofs.Data.File
import BlockFS.Proofs.Refinement.Names
import BlockFS.Proofs.Refinement.Outcome

/-!
The operations on regular files refine lists of bytes. Writing replaces a range, truncating cuts the
end off, reading transfers a slice; each of them, and each change of attributes, leaves the tree of
names and all other files as they are.
-/

set_option autoImplicit false
set_option relaxedAutoImplicit false

namespace BlockFS

def File.attributes (file : File) (id : UInt32) : Attributes where
  inode := id
  type := .regular
  mode := file.mode
  links := 1
  uid := file.uid
  gid := file.gid
  size := file.bytes.length
  blocks := blocksToHold file.bytes.length
  atime := file.mtime
  mtime := file.mtime
  ctime := file.mtime

theorem Disk.attributes_file {d : Disk} {id : UInt32} (hformed : (d.inode id).WellFormed)
    (hregular : (d.inode id).isRegular = true) :
    (d.inode id).attributes id = (d.file id).attributes id := by
  have htype : (d.inode id).type = .regular := by
    have hfile := Inode.isDirectory_eq_false_of_isRegular hregular
    rw [Inode.isDirectory] at hfile
    cases htype : (d.inode id).type with
    | regular => rfl
    | directory =>
      rw [htype] at hfile
      cases hfile
  have hlength : (d.file id).bytes.length = (d.inode id).length := length_contents d _
  rw [Inode.attributes, File.attributes, htype, hformed.blockCount, hlength]
  rfl

namespace FileSystem

def file (fs : FileSystem) (id : UInt32) : File := fs.content.disk.file id

theorem length_bytes (fs : FileSystem) (id : UInt32) :
    (fs.file id).bytes.length = (fs.content.disk.inode id).length :=
  Disk.length_contents _ _

structure FileAt (fs : FileSystem) (text : String) (path : Path) (id : UInt32) : Prop where
  spelled : Path.ofString text = .ok path
  walk : fs.nodes.Walks rootId path (.ok id)
  file : fs.nodes id = some .file

theorem fileAt_iff {fs : FileSystem} {diskSize : UInt32} (hmounted : fs.content.Mounted diskSize)
    {text : String} {path : Path} {id : UInt32} : fs.FileAt text path id ↔
    Path.ofString text = .ok path ∧ fs.content.disk.walk rootId path = .ok id ∧
      (fs.content.disk.inode id).isRegular = true := by
  have hconsistent := hmounted.consistent
  constructor
  · rintro ⟨htext, hwalk, hfile⟩
    obtain ⟨hid, hfile⟩ := Disk.nodes_eq_file_iff.mp hfile
    exact ⟨htext, (hconsistent.walks_text htext).mp hwalk,
      (hconsistent.formed hid).isRegular hfile⟩
  · rintro ⟨htext, hwalk, hregular⟩
    exact ⟨htext, (hconsistent.walks_text htext).mpr hwalk, Disk.nodes_eq_file_iff.mpr
      ⟨Disk.walk_reachable Disk.reachable_root hwalk,
        Inode.isDirectory_eq_false_of_isRegular hregular⟩⟩

theorem fileAt_of_resolve {fs : FileSystem} {diskSize : UInt32}
    (hmounted : fs.content.Mounted diskSize) {text : String} {id : UInt32}
    (hresolve : fs.content.disk.resolve text 0 = .ok id)
    (hregular : (fs.content.disk.inode id).isRegular = true) : ∃ path, fs.FileAt text path id := by
  obtain ⟨path, htext, hwalk⟩ := Disk.path_of_resolve hresolve
  exact ⟨path, (fileAt_iff hmounted).mpr ⟨htext, hwalk, hregular⟩⟩

/-- Of all files and directories, one regular file is different afterwards. -/
structure Updates (fs fs' : FileSystem) (id : UInt32) (file : File) : Prop where
  nodes : fs'.nodes = fs.nodes
  file : fs'.file id = file
  others : ∀ other, fs.nodes other = some .file → other ≠ id → fs'.file other = fs.file other

/-- Operations on a regular file do to its bytes and attributes what they are named for. -/
structure RefinesFile (fs : FileSystem) (text : String) (id : UInt32) : Prop where
  write : ∀ {now offset bytes response fs'}, bytes ≠ [] →
    perform now (.write text offset bytes) fs = .ok response fs' →
      offset ≤ (fs.file id).bytes.length ∧ response = .written bytes.length ∧
        fs.Updates fs' id { fs.file id with
          bytes := (fs.file id).bytes.take offset ++ bytes ++
            (fs.file id).bytes.drop (offset + bytes.length)
          mtime := now }
  write_nothing : ∀ {now offset}, offset ≤ (fs.file id).bytes.length →
    ∃ fs', perform now (.write text offset []) fs = .ok (.written 0) fs' ∧
      fs'.content = fs.content
  truncate : ∀ {now length response fs'},
    perform now (.truncate text length) fs = .ok response fs' →
      0 ≤ length ∧ length.toNat ≤ (fs.file id).bytes.length ∧
        fs.Updates fs' id { fs.file id with bytes := (fs.file id).bytes.take length.toNat }
  setPermissions : ∀ {now mode}, ∃ fs', perform now (.setPermissions text mode) fs = .ok .done fs' ∧
    fs.Updates fs' id { fs.file id with
      mode := ((fs.file id).mode &&& ~~~0o777) ||| (mode &&& 0o777) }
  setModified : ∀ {now mtime}, ∃ fs', perform now (.setModified text mtime) fs = .ok .done fs' ∧
    fs.Updates fs' id { fs.file id with mtime := mtime }
  read : ∀ {now offset buffer count},
    count = min buffer.length ((fs.file id).bytes.length - offset) →
    ∃ fs', perform now (.read text offset buffer) fs = .ok (.filled count
        (((fs.file id).bytes.drop offset).take count ++ buffer.drop count)) fs' ∧
      fs'.content = fs.content
  attributes : ∀ {now}, ∃ fs', perform now (.attributes text) fs =
      .ok (.attributes ((fs.file id).attributes id)) fs' ∧ fs'.content = fs.content

theorem updates_of_changes {fs fs' : FileSystem} {diskSize id : UInt32} {file : File}
    {effects : List Effect} (hsound : fs.content.Sound diskSize)
    (hcontent : fs'.content = fs.content.after effects)
    (h : Disk.Changes fs.content.disk (fs.content.after effects).disk id file) :
    fs.Updates fs' id file where
  nodes := by
    rw [nodes, hcontent]
    exact h.entries.nodes_eq
  file := by
    rw [FileSystem.file, hcontent]
    exact h.file
  others other hnode hne := by
    obtain ⟨hother, hfile⟩ := Disk.nodes_eq_file_iff.mp hnode
    rw [FileSystem.file, hcontent]
    exact h.others other hother ((hsound.mounted.consistent.formed hother).isRegular hfile) hne

section

variable {fs : FileSystem} {diskSize now : UInt32} (hmounted : fs.content.Mounted diskSize)
  (hfaults : fs.device.faults = Faults.none) {text : String} {id : UInt32}
  (hresolve : fs.content.disk.resolve text 0 = .ok id)
  (hregular : (fs.content.disk.inode id).isRegular = true)

include hmounted hfaults hresolve hregular

theorem read_refines {offset count : Nat} {buffer : List UInt8}
    (hcount : count = min buffer.length ((fs.file id).bytes.length - offset)) :
    ∃ fs', perform now (.read text offset buffer) fs = .ok (.filled count
        (((fs.file id).bytes.drop offset).take count ++ buffer.drop count)) fs' ∧
      fs'.content = fs.content := by
  obtain ⟨fs', hread, hcontent⟩ := read_filled hmounted hfaults text offset buffer
  rw [file, Disk.file, Disk.fileOf, Disk.length_contents] at hcount
  refine ⟨fs', ?_, hcontent⟩
  simp only [perform, hread, Disk.filled, hresolve, if_pos hregular, ← hcount]
  rfl

theorem attributes_refines : ∃ fs', perform now (.attributes text) fs =
    .ok (.attributes ((fs.file id).attributes id)) fs' ∧ fs'.content = fs.content := by
  have hformed := hmounted.consistent.formed (Disk.resolve_reachable hresolve)
  refine perform_of_answer hfaults (asks_attributes now text) ?_
  refine (Query.answer_bind_of_ok (hmounted.locate_answer_ok hresolve) _).trans ?_
  rw [file, ← Disk.attributes_file hformed hregular]
  rfl

end

section

variable {fs fs' : FileSystem} {diskSize now : UInt32} (hsound : fs.content.Sound diskSize)
  (hfaults : fs.device.faults = Faults.none) {text : String} {id : UInt32}
  (hresolve : fs.content.disk.resolve text 0 = .ok id)

include hsound hfaults hresolve

/-! ### Bytes -/

theorem write_refines {offset : Nat} {bytes : List UInt8} {response : Response}
    (hbytes : bytes ≠ [])
    (hperform : perform now (.write text offset bytes) fs = .ok response fs') :
    offset ≤ (fs.file id).bytes.length ∧ response = .written bytes.length ∧
      fs.Updates fs' id { fs.file id with
        bytes := (fs.file id).bytes.take offset ++ bytes ++
          (fs.file id).bytes.drop (offset + bytes.length)
        mtime := now } := by
  obtain ⟨update, hplan, rfl, hcontent⟩ := granted_of_perform hsound hfaults
    (transacts_write now text offset bytes) hperform
  obtain ⟨other, hother, -, hoffset, hcases⟩ := hsound.safe.of_write hplan
  obtain rfl := Except.ok.inj (hresolve.symm.trans hother)
  obtain ⟨hnil, -⟩ | ⟨-, blocks, -, hextends, rfl⟩ := hcases
  · exact absurd hnil hbytes
  · refine ⟨?_, rfl, updates_of_changes hsound hcontent
      (hextends.changes hsound.mounted now hoffset)⟩
    rwa [file, Disk.file, Disk.fileOf, Disk.length_contents]

variable (hregular : (fs.content.disk.inode id).isRegular = true)

include hregular

theorem write_nothing_refines {offset : Nat} (hoffset : offset ≤ (fs.file id).bytes.length) :
    ∃ fs', perform now (.write text offset []) fs = .ok (.written 0) fs' ∧
      fs'.content = fs.content := by
  have hformed := hsound.mounted.consistent.formed (Disk.resolve_reachable hresolve)
  rw [file, Disk.file, Disk.fileOf, Disk.length_contents] at hoffset
  have hplan : (fs.volume.write now text offset []).answer fs.device.disk = .ok ⟨0, []⟩ := by
    refine (Query.answer_bind_of_ok (hsound.mounted.locate_answer_ok hresolve) _).trans ?_
    rw [Query.answer_lift]
    exact Volume.writeFile_nil hformed hregular hoffset
  exact perform_of_granted hsound hfaults (transacts_write now text offset []) hplan

theorem truncate_refines {length : Int} {response : Response}
    (hperform : perform now (.truncate text length) fs = .ok response fs') :
    0 ≤ length ∧ length.toNat ≤ (fs.file id).bytes.length ∧
      fs.Updates fs' id { fs.file id with bytes := (fs.file id).bytes.take length.toNat } := by
  obtain ⟨update, hplan, -, hcontent⟩ :=
    granted_of_perform hsound hfaults (transacts_truncate now text length) hperform
  obtain ⟨other, hother, -, hnonneg, hlength, rfl⟩ := hsound.mounted.of_truncate hplan
  obtain rfl := Except.ok.inj (hresolve.symm.trans hother)
  refine ⟨hnonneg, ?_, updates_of_changes hsound hcontent
    (hsound.mounted.changes_truncate (Disk.resolve_reachable hresolve) hregular hlength)⟩
  rwa [file, Disk.file, Disk.fileOf, Disk.length_contents]

/-! ### Attributes -/

theorem setPermissions_refines {mode : UInt32} :
    ∃ fs', perform now (.setPermissions text mode) fs = .ok .done fs' ∧
      fs.Updates fs' id { fs.file id with
        mode := ((fs.file id).mode &&& ~~~0o777) ||| (mode &&& 0o777) } := by
  obtain ⟨fs', hperform, hcontent⟩ := perform_of_granted hsound hfaults
    (transacts_setPermissions now text mode)
    (hsound.mounted.setPermissions_eq_ok.mpr ⟨id, hresolve, rfl⟩)
  exact ⟨fs', hperform, updates_of_changes hsound hcontent (hsound.mounted.changes_attributes
    (Disk.resolve_reachable hresolve) hregular (Inode.withPermissions_sameShape _ mode))⟩

theorem setModified_refines {mtime : UInt32} :
    ∃ fs', perform now (.setModified text mtime) fs = .ok .done fs' ∧
      fs.Updates fs' id { fs.file id with mtime := mtime } := by
  obtain ⟨fs', hperform, hcontent⟩ := perform_of_granted hsound hfaults
    (transacts_setModified now text mtime)
    (hsound.mounted.setModified_eq_ok.mpr ⟨id, hresolve, hregular, rfl⟩)
  exact ⟨fs', hperform, updates_of_changes hsound hcontent (hsound.mounted.changes_attributes
    (Disk.resolve_reachable hresolve) hregular (Inode.modified_sameShape _ mtime))⟩

theorem refinesFile_of_sound : fs.RefinesFile text id where
  write := write_refines hsound hfaults hresolve
  write_nothing := write_nothing_refines hsound hfaults hresolve hregular
  truncate := truncate_refines hsound hfaults hresolve hregular
  setPermissions := setPermissions_refines hsound hfaults hresolve hregular
  setModified := setModified_refines hsound hfaults hresolve hregular
  read := read_refines hsound.mounted hfaults hresolve hregular
  attributes := attributes_refines hsound.mounted hfaults hresolve hregular

end

/-- Whatever calls came before, the operations on a regular file refine its bytes. -/
theorem Reached.refines_file {diskSize id : UInt32} {fs : FileSystem} {text : String} {path : Path}
    (h : Reached diskSize fs) (htext : Path.ofString text = .ok path)
    (hwalk : fs.nodes.Walks rootId path (.ok id)) (hnode : fs.nodes id = some .file) :
    fs.RefinesFile text id := by
  have hconsistent := h.sound.2.mounted.consistent
  obtain ⟨hid, hfile⟩ := Disk.nodes_eq_file_iff.mp hnode
  exact refinesFile_of_sound h.sound.2 h.sound.1
    ((Disk.resolve_zero htext).trans ((hconsistent.walks_text htext).mp hwalk))
    ((hconsistent.formed hid).isRegular hfile)

theorem create_of_formatted {device device' : Device} {diskSize made : UInt32} {volume : Volume}
    (hfaults : device.faults = Faults.none)
    (hformat : Device.format diskSize made device = .ok volume device')
    (hroom : 4 < diskSize.toNat) {text : String} {name : Name}
    (htext : Path.ofString text = .ok [name]) (now permissions : UInt32) (owner : Owner) :
    ∃ id fs', perform now (.create text permissions .regular owner) ⟨device', volume⟩ =
      .ok (.inode id) fs' := by
  have hsound : (FileSystem.mk device' volume).content.Sound diskSize :=
    Device.sound_of_format hformat
  have hslots := Device.slots_of_format hformat
  obtain ⟨id, hfit⟩ := Device.firstFit_of_format hformat hroom
  have habsent : (device'.disk.slots rootId).find name = none := by
    apply Directory.find_eq_none_iff.mpr
    intro k hused
    rw [hslots, Directory.get_empty] at hused
    cases hused
  have hunused : (device'.disk.slots rootId).firstUnused = some ⟨0, by decide⟩ := by
    refine Directory.firstUnused_eq_some_iff.mpr ⟨?_, fun j hj => absurd hj (Nat.not_lt_zero _)⟩
    rw [hslots, Directory.get_empty]
    rfl
  have hwalk : device'.disk.walk rootId [] = .ok rootId := rfl
  have hplan := hsound.mounted.create_answer now permissions .regular owner htext hwalk
    hsound.mounted.consistent.root_directory habsent hunused hfit
  have hnone : device'.faults = Faults.none := (Device.of_format hformat).2.1.trans hfaults
  obtain ⟨fs', hperform, -⟩ := perform_of_granted hsound hnone
    (transacts_create now text permissions .regular owner) hplan
  exact ⟨id, fs', hperform⟩

theorem exists_created_in {diskSize : UInt32}
    (hfit : Superblock.checkFit diskSize diskSize.toNat = .ok ()) (hroom : 4 < diskSize.toNat) :
    ∃ volume device fs id,
      Device.format diskSize 0 (Device.ofDisk (Disk.blank diskSize.toNat)) = .ok volume device ∧
        Reached diskSize ⟨device, volume⟩ ∧
        perform 1 (.create "/a" 0o644 .regular ⟨0, 0⟩) ⟨device, volume⟩ = .ok (.inode id) fs := by
  have hfaults : (Device.ofDisk (Disk.blank diskSize.toNat)).faults = Faults.none := rfl
  obtain ⟨volume, device, hformat⟩ := Device.format_ok hfaults hfit 0
  have htext : Path.ofString "/a" = .ok [[97]] := by rfl
  obtain ⟨id, fs, hperform⟩ := create_of_formatted hfaults hformat hroom htext 1 0o644 ⟨0, 0⟩
  exact ⟨volume, device, fs, id, hformat, .formatted hfaults hformat, hperform⟩

theorem exists_created : ∃ volume device fs id,
    Device.format 16 0 (Device.ofDisk (Disk.blank 16)) = .ok volume device ∧
      Reached 16 ⟨device, volume⟩ ∧
      perform 1 (.create "/a" 0o644 .regular ⟨0, 0⟩) ⟨device, volume⟩ = .ok (.inode id) fs :=
  exists_created_in rfl (by decide)

/-- A file that is created in a new file system. -/
theorem refines_file_after_create : ∃ volume device fs id,
    Device.format 16 0 (Device.ofDisk (Disk.blank 16)) = .ok volume device ∧
      perform 1 (.create "/a" 0o644 .regular ⟨0, 0⟩) ⟨device, volume⟩ = .ok (.inode id) fs ∧
      fs.nodes.Walks rootId [[97]] (.ok id) ∧ fs.nodes id = some .file ∧
      fs.RefinesFile "/a" id := by
  obtain ⟨volume, device, fs, id, hformat, hreached, hperform⟩ := exists_created
  have htext : Path.ofString "/a" = .ok [[97]] := by rfl
  have hafter : Reached 16 fs := hreached.performed hperform
  obtain ⟨hwalk, hnode⟩ := create_leads hreached.sound.2 hreached.sound.1 htext hperform
  exact ⟨volume, device, fs, id, hformat, hperform, hwalk, hnode,
    hafter.refines_file htext hwalk hnode⟩

end FileSystem

end BlockFS
