import BlockFS.Proofs.Invariant.Alters
import BlockFS.Proofs.Refinement.Files

/-!
Operations leave each other's files alone. A call changes something at the paths it is given; any
other path that does not go through one of those leads where it led, and what is found there is the
same. In a listing the entry that one of the paths ends in may be another, or gone, or new.
-/

set_option autoImplicit false
set_option relaxedAutoImplicit false

namespace BlockFS

namespace Disk

variable {d d' : Disk} {diskSize : UInt32}

/-- What stays at a path: where it leads, and the inode, the bytes and the listing there. The
listings may differ in an entry whose name has a property. -/
structure Keeps (d d' : Disk) (path : Path) (apart : Name → Prop) : Prop where
  walk : d'.walk rootId path = d.walk rootId path
  inode : ∀ {id}, d.walk rootId path = .ok id → d'.inode id = d.inode id
  contents : ∀ {id}, d.walk rootId path = .ok id → (d.inode id).isRegular = true →
    d'.contents (d.inode id) = d.contents (d.inode id)
  listing : ∀ {id}, d.walk rootId path = .ok id → (d.inode id).isDirectory = true →
    SameBut (fun entry => apart entry.1) (d.listing id) (d'.listing id)

theorem Keeps.refl (d : Disk) (path : Path) (apart : Name → Prop) : Keeps d d path apart :=
  ⟨rfl, fun _ => rfl, fun _ _ => rfl, fun _ _ => SameBut.refl _ _⟩

theorem Keeps.mono {path : Path} {apart apart' : Name → Prop} (h : Keeps d d' path apart)
    (hsub : ∀ name, apart name → apart' name) : Keeps d d' path apart' where
  walk := h.walk
  inode := h.inode
  contents := h.contents
  listing hwalk hdirectory := (h.listing hwalk hdirectory).mono fun _ => hsub _

theorem row_congr {directory : UInt32} {k : Fin slotCount}
    (hentry : d'.slotEntries directory k = d.slotEntries directory k)
    (hinode : ∀ name child, d.slotEntries directory k = some (name, child) →
      d'.inode child = d.inode child) : d'.row directory k = d.row directory k := by
  rw [row, row, hentry]
  cases hslot : d.slotEntries directory k with
  | none => rfl
  | some entry => simp only [Option.map_some, hinode entry.1 entry.2 hslot]

theorem row_eq_some {directory : UInt32} {k : Fin slotCount} {entry : Name × Attributes}
    (h : d.row directory k = some entry) :
    ∃ child, d.slotEntries directory k = some (entry.1, child) := by
  obtain ⟨⟨name, child⟩, hslot, rfl⟩ := Option.map_eq_some_iff.mp h
  exact ⟨child, hslot⟩

theorem Consistent.walk_row (hd : d.Consistent diskSize) {path : Path} {directory child : UInt32}
    {k : Fin slotCount} {name : Name} (hwalk : d.walk rootId path = .ok directory)
    (hdirectory : (d.inode directory).isDirectory = true)
    (hslot : d.slotEntries directory k = some (name, child)) :
    Path.IsComponent name ∧ d.walk rootId (path ++ [name]) = .ok child := by
  have hid := walk_reachable reachable_root hwalk
  obtain ⟨-, hstored, hinode⟩ := slotEntries_eq_some_iff.mp hslot
  have hname : Path.IsComponent name :=
    hstored ▸ hd.storedName_isComponent hid (links_of_slotEntries hdirectory hslot)
  refine ⟨hname, walk_concat_eq_ok_iff.mpr ⟨directory, k, hwalk, hdirectory, ?_, hinode⟩⟩
  rw [hd.slotEntries_of_find hid hdirectory hname, hinode, hslot]

theorem Consistent.eq_of_walk_row (hd : d.Consistent diskSize) {path target : Path}
    {directory child : UInt32} {k : Fin slotCount} {name : Name}
    (hcomponents : ∀ other ∈ path, Path.IsComponent other)
    (hwalk : d.walk rootId path = .ok directory)
    (hdirectory : (d.inode directory).isDirectory = true)
    (hslot : d.slotEntries directory k = some (name, child))
    (hnames : ∀ other ∈ target, Path.IsComponent other)
    (htarget : d.walk rootId target = .ok child) : path ++ [name] = target := by
  obtain ⟨hname, hleads⟩ := hd.walk_row hwalk hdirectory hslot
  refine hd.walk_injective (fun other hother => ?_) hnames hleads htarget
  rcases List.mem_append.mp hother with hother | hother
  · exact hcomponents other hother
  · rw [List.mem_singleton.mp hother]
    exact hname

section

variable {paths : List Path} {path : Path} (hd : d.Consistent diskSize)
  (hcomponents : ∀ name ∈ path, Path.IsComponent name)
  (havoid : ∀ target ∈ paths, ¬ target <+: path)

include hd hcomponents

theorem sameBut_of_inode {target : Path} {id changed : UInt32} (htarget : target ∈ paths)
    (hnames : ∀ name ∈ target, Path.IsComponent name)
    (hwalk : d.walk rootId target = .ok changed) (hentries : SameEntries d d')
    (htouches : TouchesOnly d d' changed) (hpath : d.walk rootId path = .ok id)
    (hdirectory : (d.inode id).isDirectory = true) :
    SameBut (fun entry => path ++ [entry.1] ∈ paths) (d.listing id) (d'.listing id) := by
  have hid : d.Reachable id := walk_reachable reachable_root hpath
  have hentry : ∀ k, d'.slotEntries id k = d.slotEntries id k := fun k => by
    rw [slotEntries, slotEntries, hentries.slots hid hdirectory]
  have hrow : ∀ k, ¬ d.Links id k changed → d'.row id k = d.row id k := by
    intro k hlinks
    refine row_congr (hentry k) fun name child hslot => ?_
    have hlink := links_of_slotEntries hdirectory hslot
    refine htouches.inode_eq (hid.child hlink) ?_
    rintro rfl
    exact hlinks hlink
  by_cases hchild : ∃ k, d.Links id k changed
  · obtain ⟨k, hlink⟩ := hchild
    have hname : ∀ name child, d.slotEntries id k = some (name, child) →
        path ++ [name] ∈ paths := by
      intro name child hslot
      obtain rfl := (links_of_slotEntries hdirectory hslot).functional hlink
      rw [hd.eq_of_walk_row hcomponents hpath hdirectory hslot hnames hwalk]
      exact htarget
    refine SameBut.of_rows k (fun l hl => hrow l fun hother => ?_) ?_ ?_
    · exact hl (hd.link_injective hid hid hother hlink).2
    · intro entry hsome
      obtain ⟨child, hslot⟩ := row_eq_some hsome
      exact hname _ _ hslot
    · intro entry hsome
      obtain ⟨child, hslot⟩ := row_eq_some hsome
      rw [hentry] at hslot
      exact hname _ _ hslot
  · have hrows : d'.row id = d.row id := funext fun k => hrow k fun hlink => hchild ⟨k, hlink⟩
    rw [listing, listing, hrows]
    exact SameBut.refl _ _

theorem sameBut_of_slot {above : Path} {directory id : UInt32} {k : Fin slotCount} {slot : Slot}
    (hwalk : d.walk rootId above = .ok directory)
    (hrelists : Relists d d' directory ((d.slots directory).put k slot))
    (hnames : ∀ name ∈ above, Path.IsComponent name)
    (hold : ((d.slots directory).get k).used = true →
      above ++ [((d.slots directory).get k).storedName] ∈ paths)
    (hnew : slot.used = true → above ++ [slot.storedName] ∈ paths)
    (hpath : d.walk rootId path = .ok id) (hdirectory : (d.inode id).isDirectory = true) :
    SameBut (fun entry => path ++ [entry.1] ∈ paths) (d.listing id) (d'.listing id) := by
  have hid : d.Reachable id := walk_reachable reachable_root hpath
  have hrow : ∀ l, d'.slotEntries id l = d.slotEntries id l → d'.row id l = d.row id l :=
    fun l hentry => row_congr hentry fun name child hslot =>
      hrelists.inode_eq hd (hid.child (links_of_slotEntries hdirectory hslot))
  by_cases heq : id = directory
  · subst heq
    obtain rfl := hd.walk_injective hcomponents hnames hpath hwalk
    have hslots := hrelists.slots_self hd
    refine SameBut.of_rows k (fun l hl => hrow l ?_) ?_ ?_
    · rw [slotEntries, slotEntries, hslots, Directory.get_put, if_neg (Ne.symm hl)]
    · intro entry hsome
      obtain ⟨child, hslot⟩ := row_eq_some hsome
      obtain ⟨hused, hstored, -⟩ := slotEntries_eq_some_iff.mp hslot
      exact hstored ▸ hold hused
    · intro entry hsome
      obtain ⟨child, hslot⟩ := row_eq_some hsome
      obtain ⟨hused, hstored, -⟩ := slotEntries_eq_some_iff.mp hslot
      rw [hslots, Directory.get_put, if_pos rfl] at hused hstored
      exact hstored ▸ hnew hused
  · have hrows : d'.row id = d.row id := funext fun l => hrow l <| by
      rw [slotEntries, slotEntries, hrelists.slots_of_ne hd hid hdirectory heq]
    rw [listing, listing, hrows]
    exact SameBut.refl _ _

include havoid

theorem keeps_of_inode {target : Path} {changed : UInt32} (htarget : target ∈ paths)
    (hnames : ∀ name ∈ target, Path.IsComponent name)
    (hwalk : d.walk rootId target = .ok changed) (hentries : SameEntries d d')
    (htouches : TouchesOnly d d' changed) :
    Keeps d d' path fun name => path ++ [name] ∈ paths := by
  have hne : ∀ {id}, d.walk rootId path = .ok id → id ≠ changed := by
    rintro id hpath rfl
    have heq := hd.walk_injective hnames hcomponents hwalk hpath
    exact havoid target htarget (heq ▸ List.prefix_rfl)
  have hreachable : ∀ {id}, d.walk rootId path = .ok id → d.Reachable id :=
    walk_reachable reachable_root
  exact {
    walk := hentries.walk_eq reachable_root path
    inode := fun hpath => htouches.inode_eq (hreachable hpath) (hne hpath)
    contents := fun hpath _ => htouches.contents_eq (hreachable hpath) (hne hpath) hd
    listing := sameBut_of_inode hd hcomponents htarget hnames hwalk hentries htouches }

/-- A change of a slot is not seen at paths that do not go through it. -/
theorem keeps_of_slot {above : Path} {directory : UInt32} {k : Fin slotCount} {slot : Slot}
    (hwalk : d.walk rootId above = .ok directory)
    (hrelists : Relists d d' directory ((d.slots directory).put k slot))
    (hnames : ∀ name ∈ above, Path.IsComponent name)
    (hold : ((d.slots directory).get k).used = true →
      above ++ [((d.slots directory).get k).storedName] ∈ paths)
    (hnew : slot.used = true → above ++ [slot.storedName] ∈ paths)
    (htouches : TouchesOnly d d' directory) :
    Keeps d d' path fun name => path ++ [name] ∈ paths := by
  have hreachable : ∀ {id}, d.walk rootId path = .ok id → d.Reachable id :=
    walk_reachable reachable_root
  have hroot : d.walk rootId [] = .ok rootId := rfl
  have hne : ∀ {id}, (d.inode id).isRegular = true → id ≠ directory := by
    rintro id hregular rfl
    exact Inode.not_isDirectory_of_isRegular hregular hrelists.isDirectory
  exact {
    walk := hrelists.walk_avoiding hd hwalk hnames hroot hcomponents
      (fun hused => havoid _ (hold hused)) fun hused => havoid _ (hnew hused)
    inode := fun hpath => hrelists.inode_eq hd (hreachable hpath)
    contents := fun hpath hregular =>
      htouches.contents_eq (hreachable hpath) (hne hregular) hd
    listing := sameBut_of_slot hd hcomponents hwalk hrelists hnames hold hnew }

theorem Alters.keeps (h : Alters d d' paths)
    (hnames : ∀ target ∈ paths, ∀ name ∈ target, Path.IsComponent name) :
    Keeps d d' path fun name => path ++ [name] ∈ paths := by
  cases h with
  | inode htarget hwalk hentries htouches =>
    exact keeps_of_inode hd hcomponents havoid htarget (hnames _ htarget) hwalk hentries htouches
  | slot hwalk hrelists habove hold hnew htouches =>
    exact keeps_of_slot hd hcomponents havoid hwalk hrelists habove hold hnew htouches

end

end Disk

namespace FileSystem

variable {fs fs' : FileSystem} {diskSize : UInt32}

/-- Callers see the same at a path in two states. In a listing an entry whose name has a property
may be another, or be in one of them only. -/
structure SeesSame (fs fs' : FileSystem) (text : String) (apart : Name → Prop) : Prop where
  lookup : ∀ now, fs'.outcome now (.lookup text) = fs.outcome now (.lookup text)
  attributes : ∀ now, fs'.outcome now (.attributes text) = fs.outcome now (.attributes text)
  read : ∀ offset buffer, (read text offset buffer fs').1 = (read text offset buffer fs).1
  list : ∀ now, (∃ failure, fs.outcome now (.list text) = .error failure ∧
      fs'.outcome now (.list text) = .error failure) ∨
    ∃ before after, fs.outcome now (.list text) = .ok (.listing before) ∧
      fs'.outcome now (.list text) = .ok (.listing after) ∧
      SameBut (fun entry => ∃ name, apart name ∧ entry.1 = String.ofList (Utf8.decode name))
        before after

theorem seesSame_of_keeps (hmounted : fs.content.Mounted diskSize)
    (hfaults : fs.device.faults = Faults.none) (hmounted' : fs'.content.Mounted diskSize)
    (hfaults' : fs'.device.faults = Faults.none) {text : String} {path : Path}
    {apart : Name → Prop} (htext : Path.ofString text = .ok path)
    (hkeeps : Disk.Keeps fs.content.disk fs'.content.disk path apart) :
    fs.SeesSame fs' text apart where
  lookup now := by
    rw [outcome_lookup hmounted hfaults htext, outcome_lookup hmounted' hfaults' htext, hkeeps.walk]
  attributes now := by
    rw [outcome_asks hfaults (asks_attributes now text),
      outcome_asks hfaults' (asks_attributes now text)]
    refine congrArg (Except.map _) ?_
    refine (hmounted'.attributes_answer htext).trans ?_
    refine Eq.trans ?_ (hmounted.attributes_answer htext).symm
    rw [hkeeps.walk]
    cases hwalk : fs.content.disk.walk rootId path with
    | error reason => rfl
    | ok id => rw [Except.map, Except.map, hkeeps.inode hwalk]
  read offset buffer := by
    obtain ⟨_, hread, -⟩ := read_filled hmounted hfaults text offset buffer
    obtain ⟨_, hread', -⟩ := read_filled hmounted' hfaults' text offset buffer
    rw [hread, hread', Disk.filled, Disk.filled, Disk.resolve_zero htext, Disk.resolve_zero htext,
      hkeeps.walk]
    cases hwalk : fs.content.disk.walk rootId path with
    | error reason => rfl
    | ok id =>
      by_cases hregular : (fs.content.disk.inode id).isRegular = true
      · simp only [hkeeps.inode hwalk, hkeeps.contents hwalk hregular]
      · simp only [hkeeps.inode hwalk, if_neg hregular]
  list now := by
    have hlist := hmounted.list_eq htext
    have hlist' := hmounted'.list_eq htext
    rw [hkeeps.walk] at hlist'
    rw [outcome_asks hfaults (asks_list now text), outcome_asks hfaults' (asks_list now text)]
    cases hwalk : fs.content.disk.walk rootId path with
    | error reason =>
      rw [hwalk] at hlist hlist'
      refine .inl ⟨.refused reason, ?_, ?_⟩
      · exact congrArg (Except.map _) hlist
      · exact congrArg (Except.map _) hlist'
    | ok id =>
      rw [hwalk] at hlist hlist'
      simp only [bind, Except.bind, hkeeps.inode hwalk] at hlist hlist'
      by_cases hdirectory : (fs.content.disk.inode id).isDirectory = true
      · rw [if_pos hdirectory] at hlist hlist'
        refine .inr ⟨_, _, congrArg (Except.map _) hlist, congrArg (Except.map _) hlist', ?_⟩
        exact (hkeeps.listing hwalk hdirectory).map fun entry hentry => ⟨entry.1, hentry, rfl⟩
      · rw [if_neg hdirectory] at hlist hlist'
        refine .inl ⟨.refused .notADirectory, ?_, ?_⟩
        · exact congrArg (Except.map _) hlist
        · exact congrArg (Except.map _) hlist'

variable {now : UInt32} {request : Request}

/-- What a call leaves as it was if a path is not among those it is given, nor below one of them:
what callers see there, and the blocks that are not the file system's to write. -/
structure Isolates (fs : FileSystem) (now : UInt32) (request : Request) (diskSize : UInt32)
    (text : String) (path : Path) : Prop where
  sees : fs.SeesSame (fs.after now request) text fun name =>
    ∃ target ∈ request.targets, Path.ofString target = .ok (path ++ [name])
  outside : ∀ block, block = superblockId ∨ diskSize ≤ block →
    (fs.after now request).device.disk.block block = fs.device.disk.block block

/-- Where a call leaves the disk: as it was, or altered at its targets. -/
theorem Reached.alters_after (h : Reached diskSize fs) (now : UInt32) (request : Request) :
    (fs.after now request).content = fs.content ∨
      ∃ paths effects, Path.Spelled request.targets paths ∧
        Content.AltersAt fs.content diskSize paths effects ∧
        (fs.after now request).content = fs.content.after effects := by
  obtain ⟨hfaults, hsound⟩ := h.sound
  have hcontent := content_after hsound hfaults now request
  cases hplan : (request.effects fs.volume now).answer fs.device.disk with
  | error failure =>
    rw [hplan] at hcontent
    exact .inl hcontent
  | ok effects =>
    rw [hplan] at hcontent
    obtain ⟨paths, hspelled, halters⟩ := hsound.safe.altersAt_request hplan
    exact .inr ⟨paths, effects, hspelled, halters, hcontent⟩

theorem Reached.block_outside (h : Reached diskSize fs) (now : UInt32) (request : Request)
    {block : UInt32} (hblock : block = superblockId ∨ diskSize ≤ block) :
    (fs.after now request).content.disk.block block = fs.content.disk.block block := by
  rcases h.alters_after now request with hsame | ⟨_, effects, -, halters, hcontent⟩
  · rw [hsame]
  · rw [hcontent]
    exact halters.outside block hblock

/-- Whatever a call does to its targets, it is not seen at paths that do not go through one. -/
theorem Reached.isolated (h : Reached diskSize fs) (now : UInt32) (request : Request)
    {text : String} {path : Path} (htext : Path.ofString text = .ok path)
    (havoid : ∀ target ∈ request.targets, ∀ way, Path.ofString target = .ok way →
      ¬ way <+: path) : fs.Isolates now request diskSize text path := by
  obtain ⟨hfaults, hsound⟩ := h.sound
  obtain ⟨hfaults', hsound'⟩ := (h.called now request).sound
  refine ⟨seesSame_of_keeps hsound.mounted hfaults hsound'.mounted hfaults' htext ?_,
    fun _ => h.block_outside now request⟩
  rcases h.alters_after now request with hsame | ⟨paths, effects, hspelled, halters, hcontent⟩
  · rw [hsame]
    exact Disk.Keeps.refl _ _ _
  · rw [hcontent]
    rcases halters.tree with rfl | htree
    · exact Disk.Keeps.refl _ _ _
    · have hcomponents : ∀ name ∈ path, Path.IsComponent name :=
        fun _ hname => Path.isComponent_of_ofString htext hname
      refine (htree.keeps hsound.mounted.consistent hcomponents ?_ hspelled.components).mono ?_
      · intro way hway
        obtain ⟨target, htarget, hofString⟩ := hspelled.exists_text hway
        exact havoid target htarget way hofString
      · intro name hname
        exact hspelled.exists_text hname

/-- A file is created in a new file system, and the root is the same but for its entry. -/
theorem isolated_from_creation : ∃ volume device,
    Device.format 16 0 (Device.ofDisk (Disk.blank 16)) = .ok volume device ∧
      (FileSystem.mk device volume).Isolates 1 (.create "/a" 0o644 .regular ⟨0, 0⟩) 16 "/" [] := by
  obtain ⟨volume, device, hformat⟩ := Device.exists_formatted_blank
  have hreached : Reached 16 ⟨device, volume⟩ := .formatted rfl hformat
  have htext : Path.ofString "/" = .ok [] := by rfl
  refine ⟨volume, device, hformat, hreached.isolated 1 _ htext ?_⟩
  intro target htarget way hway
  obtain rfl := List.mem_singleton.mp htarget
  have hother : Path.ofString "/a" = .ok [[97]] := by rfl
  obtain rfl := Except.ok.inj (hother.symm.trans hway)
  decide

end FileSystem

end BlockFS
