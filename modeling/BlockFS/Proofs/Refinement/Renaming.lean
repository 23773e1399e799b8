import BlockFS.Proofs.Refinement.Splitting
import BlockFS.Proofs.Text.Spelling

/-!
Renaming. A rename gives one slot of a directory another name, in place: what is below the slot is
found under the new name as it was under the old one, and nothing is found under the old one. The
name field of a slot holds nothing but the name, so renaming back leaves every block as it was.
-/

set_option autoImplicit false
set_option relaxedAutoImplicit false

namespace BlockFS

namespace Disk

variable {d d' : Disk} {diskSize parent child : UInt32} {k : Fin slotCount} {path : Path}
  {oldName newName : Name}

/-- The disks differ, if at all, in the name field of one slot of a block. -/
structure SameButName (d d' : Disk) (block : UInt32) (k : Fin slotCount) : Prop where
  others : ∀ {id}, id ≠ block → d'.block id = d.block id
  outside : ∀ {i : Fin blockSize},
    i.val < Directory.nameStart k ∨ Directory.nameStart k + nameField ≤ i.val →
      (d'.block block).get i = (d.block block).get i

theorem sameButName_rename (d : Disk) (parent : UInt32) (k : Fin slotCount) (name : Name) :
    SameButName d (d.set (d.inode parent).slotsBlock
      ((d.slots parent).put k (((d.slots parent).get k).rename name)).encode)
      (d.inode parent).slotsBlock k where
  others hne := by rw [block_set, if_neg (Ne.symm hne)]
  outside hi := by
    rw [block_set, if_pos rfl]
    exact Directory.get_encode_put_rename (d.block (d.inode parent).slotsBlock) k name hi

theorem Renames.renamed_back (h : Renames d d' parent k newName) (hd : d.Consistent diskSize)
    (hname : ((d.slots parent).get k).name = oldName.toField) : d'.renamed parent k oldName =
      .store (d.inode parent).slotsBlock (d.block (d.inode parent).slotsBlock) := by
  rw [renamed, Effect.storeSlots, h.relists.inode_eq hd h.relists.reachable,
    h.relists.slots_self hd, Directory.put_rename_rename _ hname, slots, Directory.encode_decode]

/-- What continues the old path leads where it continues the new one afterwards. -/
theorem Renames.resolve_continued (h : Renames d d' parent k newName) (hd : d.Consistent diskSize)
    (hentry : d.Entry path oldName parent k child) {source target : String}
    (hsource : Path.ofString source = .ok (path ++ [oldName]))
    (htarget : Path.ofString target = .ok (path ++ [newName])) (rest : String) :
    d'.resolve (target ++ "/" ++ rest) 0 = d.resolve (source ++ "/" ++ rest) 0 := by
  have holdText := Path.ofString_continued hsource rest
  have hnewText := Path.ofString_continued htarget rest
  rw [List.length_append, List.length_singleton] at holdText hnewText
  split at holdText
  · rw [if_pos ‹_›] at hnewText
    rw [resolve_of_error holdText, resolve_of_error hnewText]
  · rw [if_neg ‹_›] at hnewText
    rw [resolve_zero holdText, resolve_zero hnewText, List.append_assoc, List.append_assoc,
      List.singleton_append, List.singleton_append, h.walk_new hd hentry]

end Disk

namespace FileSystem

/-- The paths of two texts differ, if at all, in their last names. -/
structure Siblings (source target : String) (path : Path) (oldName newName : Name) : Prop where
  source : Path.ofString source = .ok (path ++ [oldName])
  target : Path.ofString target = .ok (path ++ [newName])

/-- A slot has another name, and nothing else is different; renaming back takes that back. -/
structure Relabelled (fs fs' : FileSystem) (source target : String) : Prop where
  inPlace : ∃ path oldName newName parent slots k child,
    Siblings source target path oldName newName ∧
      fs.nodes.Holds path oldName parent slots k child ∧
      fs.content.disk.SameButName fs'.content.disk (fs.content.disk.inode parent).slotsBlock k
  saved : fs'.content.disk.block bitmapId = fs.content.disk.block bitmapId
  volume : fs'.volume = fs.volume
  leads : ∀ now rest, fs'.outcome now (.lookup (target ++ "/" ++ rest)) =
    fs.outcome now (.lookup (source ++ "/" ++ rest))
  gone : ∀ now, fs'.outcome now (.lookup source) = .error (.refused .notFound)
  undone : ∀ now, ∃ fs'', perform now (.rename target source) fs' = .ok .done fs'' ∧
    fs.content.Identical fs''.content

/-- Renaming is granted for siblings of which the first is there and the second is not, and gives
a slot another name in place. -/
structure RenamesInPlace (fs : FileSystem) (source target : String) : Prop where
  granted_iff : ∀ {now}, (∃ response fs', perform now (.rename source target) fs =
      .ok response fs') ↔
    (∃ id, fs.outcome now (.lookup source) = .ok (.inode id)) ∧
      (∃ path oldName newName, Siblings source target path oldName newName) ∧
      fs.outcome now (.lookup target) = .error (.refused .notFound)
  relabels : ∀ {now response fs'}, perform now (.rename source target) fs = .ok response fs' →
    fs.Relabelled fs' source target

section

variable {fs fs' : FileSystem} {diskSize now : UInt32} (hsound : fs.content.Sound diskSize)
  (hfaults : fs.device.faults = Faults.none) {source target : String} {path : Path}
  {oldName newName : Name}

include hsound hfaults

theorem exists_rename {parent child : UInt32} {k : Fin slotCount}
    (hsiblings : Siblings source target path oldName newName)
    (hentry : fs.content.disk.Entry path oldName parent k child)
    (hfind : (fs.content.disk.slots parent).find newName = none) (now : UInt32) :
    ∃ fs', perform now (.rename source target) fs = .ok .done fs' ∧
      fs'.content = fs.content.after [fs.content.disk.renamed parent k newName] :=
  perform_of_granted hsound hfaults (transacts_rename now source target)
    (hsound.mounted.rename_answer hsiblings.source hsiblings.target hentry hfind)

theorem rename_granted_iff :
    (∃ response fs', perform now (.rename source target) fs = .ok response fs') ↔
      (∃ id, fs.outcome now (.lookup source) = .ok (.inode id)) ∧
        (∃ path oldName newName, Siblings source target path oldName newName) ∧
        fs.outcome now (.lookup target) = .error (.refused .notFound) := by
  rw [lookup_ok_iff hsound.mounted hfaults, lookup_error_iff hsound.mounted hfaults]
  constructor
  · rintro ⟨response, fs', hperform⟩
    obtain ⟨path, oldName, newName, parent, k, child, hsource, htarget, hentry, hrenames, -⟩ :=
      renames_of_perform hsound hfaults hperform
    refine ⟨⟨child, hentry.resolve hsource⟩, ⟨path, oldName, newName, hsource, htarget⟩, ?_⟩
    rw [Disk.resolve_zero htarget, Disk.walk_concat_eq_notFound_iff hentry.walk hentry.directory]
    exact hrenames.find_new
  · rintro ⟨⟨id, hresolve⟩, ⟨path, oldName, newName, hsiblings⟩, hmissing⟩
    rw [Disk.resolve_zero hsiblings.source] at hresolve
    rw [Disk.resolve_zero hsiblings.target] at hmissing
    obtain ⟨parent, k, hentry⟩ := Disk.walk_concat_eq_ok_iff.mp hresolve
    rw [Disk.walk_concat_eq_notFound_iff hentry.walk hentry.directory] at hmissing
    obtain ⟨fs', hperform, -⟩ := exists_rename hsound hfaults hsiblings hentry hmissing now
    exact ⟨_, fs', hperform⟩

omit hfaults in
theorem rename_back {parent child : UInt32} {k : Fin slotCount}
    (hsiblings : Siblings source target path oldName newName)
    (hentry : fs.content.disk.Entry path oldName parent k child)
    (hrenames : fs.content.disk.Renames fs'.content.disk parent k newName)
    (hcontent : fs'.content = fs.content.after [fs.content.disk.renamed parent k newName])
    (hsound' : fs'.content.Sound diskSize) (hfaults' : fs'.device.faults = Faults.none)
    (now : UInt32) : ∃ fs'', perform now (.rename target source) fs' = .ok .done fs'' ∧
      fs.content.Identical fs''.content := by
  have hconsistent := hsound.mounted.consistent
  have hold : Path.IsComponent oldName :=
    Path.isComponent_of_ofString hsiblings.source (by simp)
  obtain ⟨fs'', hback, hrestored⟩ := exists_rename hsound' hfaults'
    ⟨hsiblings.target, hsiblings.source⟩ (hrenames.entry hconsistent hentry)
    (hrenames.find_old hconsistent hentry hold) now
  rw [hrenames.renamed_back hconsistent (hentry.name_eq hconsistent hold), hcontent] at hrestored
  refine ⟨fs'', hback, fun block => ?_, ?_⟩
  · rw [hrestored, Content.after_cons, Content.after_nil, Effect.change, Disk.block_set]
    split
    · rename_i hblock
      rw [hblock]
    · exact (fs.content.disk.sameButName_rename parent k newName).others (Ne.symm ‹_›)
  · rw [hrestored]
    rfl

theorem rename_relabels {response : Response}
    (hperform : perform now (.rename source target) fs = .ok response fs') :
    fs.Relabelled fs' source target := by
  obtain ⟨path, oldName, newName, parent, k, child, hsource, htarget, hentry, hrenames,
    hcontent⟩ := renames_of_perform hsound hfaults hperform
  obtain ⟨hfaults', hsound'⟩ := sound_of_perform hsound hfaults hperform
  have hconsistent := hsound.mounted.consistent
  have hold : Path.IsComponent oldName := Path.isComponent_of_ofString hsource (by simp)
  have hsame : fs.content.disk.SameButName fs'.content.disk
      (fs.content.disk.inode parent).slotsBlock k := by
    rw [hcontent]
    exact fs.content.disk.sameButName_rename parent k newName
  refine ⟨⟨path, oldName, newName, parent, _, k, child, ⟨hsource, htarget⟩,
    hconsistent.holds_of_entry hsource hentry, hsame⟩, hsame.others (Ne.symm ?_),
    congrArg Content.volume hcontent, fun later rest => ?_, fun later => ?_,
    rename_back hsound ⟨hsource, htarget⟩ hentry hrenames hcontent hsound' hfaults'⟩
  · exact hsound.mounted.ne_bitmap (Disk.structural_slotsBlock hentry.reachable hentry.directory)
  · rw [outcome_resolve hsound'.mounted hfaults', outcome_resolve hsound.mounted hfaults,
      hrenames.resolve_continued hconsistent hentry hsource htarget]
  · rw [lookup_error_iff hsound'.mounted hfaults', Disk.resolve_zero hsource]
    exact hrenames.walk_old hconsistent hentry hold []

end

/-- Whatever calls came before, renaming gives a slot another name in place. -/
theorem Reached.renames_in_place {diskSize : UInt32} {fs : FileSystem} (h : Reached diskSize fs)
    (source target : String) : fs.RenamesInPlace source target where
  granted_iff := rename_granted_iff h.sound.2 h.sound.1
  relabels := rename_relabels h.sound.2 h.sound.1

theorem not_found_beside_first {device device' : Device} {diskSize made now : UInt32}
    {volume : Volume} (hfaults : device.faults = Faults.none)
    (hformat : Device.format diskSize made device = .ok volume device') {text : String}
    {name other : Name} (htext : Path.ofString text = .ok [name])
    (hother : Path.IsComponent other) (hne : other ≠ name) {permissions : UInt32} {type : FileType}
    {owner : Owner} {response : Response} {fs : FileSystem}
    (hperform : perform now (.create text permissions type owner) ⟨device', volume⟩ =
      .ok response fs) : fs.content.disk.walk rootId [other] = .error .notFound := by
  have hsound : (FileSystem.mk device' volume).content.Sound diskSize :=
    Device.sound_of_format hformat
  have hnone : device'.faults = Faults.none := (Device.of_format hformat).2.1.trans hfaults
  obtain ⟨-, hsound'⟩ := sound_of_perform hsound hnone hperform
  obtain ⟨path, last, parent, slots, k, child, hpath, hwalks, hnode, -, -, -, -, -, -, hnodes⟩ :=
    create_refines hsound hnone hperform
  obtain ⟨rfl, rfl⟩ : path = [] ∧ last = name := by
    have hlist : [] ++ [name] = path ++ [last] := Except.ok.inj (htext.symm.trans hpath)
    obtain ⟨hfront, hlast⟩ := List.append_inj' hlist rfl
    exact ⟨hfront.symm, (List.singleton_inj.mp hlast).symm⟩
  obtain rfl : parent = rootId := by
    cases hwalks
    rfl
  obtain ⟨-, -, rfl⟩ := Disk.nodes_eq_directory_iff.mp hnode
  have hroot : fs.content.disk.nodes rootId = _ :=
    (congrFun hnodes rootId).trans (Function.update_self ..)
  refine hsound'.mounted.consistent.walk_of_walks (.missing hroot fun j entry => ?_)
    Disk.reachable_root fun _ hname => by rwa [List.mem_singleton.mp hname]
  rw [Function.update_apply]
  split
  · intro heq
    exact hne (Prod.mk.inj (Option.some.inj heq)).1.symm
  · have hempty : (device'.disk.slots rootId).get j = Slot.blank := by
      rw [Device.slots_of_format hformat, Directory.get_empty]
    have hunused := Disk.slotEntries_eq_none_iff.mpr (congrArg Slot.used hempty)
    exact fun heq => nomatch hunused.symm.trans heq

/-- A new file is renamed. -/
theorem renames_in_place_after_create : ∃ volume device fs id,
    Device.format 16 0 (Device.ofDisk (Disk.blank 16)) = .ok volume device ∧
      perform 1 (.create "/a" 0o644 .regular ⟨0, 0⟩) ⟨device, volume⟩ = .ok (.inode id) fs ∧
      fs.RenamesInPlace "/a" "/b" ∧
      ∃ response fs', perform 2 (.rename "/a" "/b") fs = .ok response fs' := by
  obtain ⟨volume, device, fs, id, hformat, hperform, hafter, hfile, -, -⟩ := exists_created_file
  obtain ⟨hfaults, hsound⟩ := hafter.sound
  have htarget : Path.ofString "/b" = .ok [[98]] := by rfl
  have hmissing := not_found_beside_first rfl hformat hfile.spelled
    (Path.isComponent_of_ofString htarget List.mem_cons_self) (by decide) hperform
  have hrenames := hafter.renames_in_place "/a" "/b"
  refine ⟨volume, device, fs, id, hformat, hperform, hrenames,
    hrenames.granted_iff.mpr ⟨?_, ⟨[], [97], [98], hfile.spelled, htarget⟩, ?_⟩⟩
  · exact (lookup_ok_iff hsound.mounted hfaults).mpr ⟨id, (hfile.resolve hsound).1⟩
  · exact (lookup_error_iff hsound.mounted hfaults).mpr ((Disk.resolve_zero htarget).trans hmissing)

end FileSystem

end BlockFS
