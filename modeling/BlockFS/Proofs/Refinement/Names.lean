import BlockFS.Proofs.Data.Contents
import BlockFS.Proofs.Invariant.Calls
import BlockFS.Proofs.Text.Spelling
import BlockFS.Proofs.Volume.Listing

/-!
The operations on names refine a tree of slot arrays. Looking up a path walks the tree, listing a
directory goes through its slots, and creating, removing and renaming an entry change one slot of
one directory.
-/

set_option autoImplicit false
set_option relaxedAutoImplicit false

namespace BlockFS

structure Namespace.Holds (n : Namespace) (path : Path) (name : Name) (parent : UInt32)
    (slots : Slots) (k : Fin slotCount) (child : UInt32) : Prop where
  walk : n.Walks rootId path (.ok parent)
  directory : n parent = some (.directory slots)
  slot : slots k = some (name, child)

namespace Disk

variable {d : Disk} {diskSize : UInt32}

theorem Consistent.holds_of_entry (hd : d.Consistent diskSize) {text : String} {path : Path}
    {name : Name} {parent child : UInt32} {k : Fin slotCount}
    (htext : Path.ofString text = .ok (path ++ [name]))
    (hentry : d.Entry path name parent k child) :
    d.nodes.Holds path name parent (d.slotEntries parent) k child where
  walk := (hd.walks_iff reachable_root fun other hother => Path.isComponent_of_ofString htext
    (List.mem_append_left [name] hother)).mpr hentry.walk
  directory := nodes_eq_directory_iff.mpr ⟨hentry.reachable, hentry.directory, rfl⟩
  slot := by
    have hname : Path.IsComponent name := Path.isComponent_of_ofString htext (by simp)
    rw [← hentry.inode]
    exact (hd.slotEntries_of_find hentry.reachable hentry.directory hname).mp hentry.find

theorem Consistent.walks_text (hd : d.Consistent diskSize) {text : String} {path : Path}
    (htext : Path.ofString text = .ok path) {result : Except Error UInt32} :
    d.nodes.Walks rootId path result ↔ d.walk rootId path = result :=
  hd.walks_iff reachable_root fun _ hname => Path.isComponent_of_ofString htext hname

end Disk

namespace Content.Mounted

variable {c : Content} {diskSize : UInt32} (h : c.Mounted diskSize)

include h

theorem nodes_bookkeeping {effects : List Effect}
    (hbook : ∀ effect ∈ effects, effect.Bookkeeping) :
    (c.after effects).disk.nodes = c.disk.nodes :=
  (Disk.SameTree.sameEntries (h.bookkeeping hbook).2).nodes_eq

theorem nodes_detached {parent child : UInt32} {k : Fin slotCount}
    (hparent : c.disk.Reachable parent) (hlink : c.disk.Links parent k child)
    (hleaf : ∀ j other, ¬ c.disk.Links child j other) (blocks : List UInt32) :
    (c.after (c.disk.detached parent k :: Effect.deallocate blocks)).disk.nodes =
      Function.update (Function.update c.disk.nodes child none) parent
        (some (.directory (Function.update (c.disk.slotEntries parent) k none))) := by
  rw [← (Disk.releases_set hparent hlink hleaf).nodes_eq h.consistent]
  exact (h.written_detached hparent hlink hleaf).mounted.nodes_bookkeeping
    fun _ => Effect.bookkeeping_deallocate

end Content.Mounted

namespace Content.Creates

variable {c : Content} {diskSize parent id : UInt32} {k : Fin slotCount} {name : Name}
  {blank : List UInt32} {type : FileType} (hc : Creates c diskSize parent k name id blank type)
  (h : c.Mounted diskSize) (permissions now : UInt32) (owner : Owner)

include hc

theorem node_after : (c.after (creation c parent k name id blank
    (Inode.fresh type permissions owner now blank.head?))).disk.node id = Node.fresh type := by
  have hinode := hc.inode_after (Inode.fresh type permissions owner now blank.head?)
  have hfresh := hc.isFresh permissions now owner
  cases type with
  | regular =>
    rw [Disk.node, hinode, (Inode.fresh_regular permissions owner now blank.head?).2.1]
    rfl
  | directory =>
    obtain ⟨slots, rfl⟩ : ∃ slots, blank = [slots] :=
      List.length_eq_one_iff.mp (Nat.succ.inj hc.length)
    have hdirectory := (Inode.fresh_directory permissions owner now slots).2.1
    rw [← List.head?_cons (a := slots) (l := []), ← hinode] at hdirectory
    rw [Disk.node, if_pos hdirectory]
    refine congrArg Node.directory (funext fun j => ?_)
    rw [Disk.slotEntries_eq_none_iff]
    by_contra hused
    exact hfresh.leaf j _ ⟨hdirectory, Bool.not_eq_false _ ▸ hused, rfl⟩

omit hc in
theorem contents_after (hc : Creates c diskSize parent k name id blank .regular)
    (blocks : List UInt32) : (c.after (creation c parent k name id blank
      (Inode.fresh .regular permissions owner now blank.head?) ++
        Effect.allocate blocks)).disk.contents ((c.after (creation c parent k name id blank
      (Inode.fresh .regular permissions owner now blank.head?) ++
        Effect.allocate blocks)).disk.inode id) = [] := by
  have hinode : (c.after (creation c parent k name id blank
      (Inode.fresh .regular permissions owner now blank.head?) ++
        Effect.allocate blocks)).disk.inode id =
      Inode.fresh .regular permissions owner now blank.head? := by
    rw [Disk.inode, after_append, Content.block_after, ← Disk.inode, hc.inode_after]
    intro effect heffect htarget
    have hid := Effect.bookkeeping_allocate heffect id htarget
    exact (hc.spare id List.mem_cons_self).not_inUse (.inr (.inl hid))
  rw [hinode, Disk.contents, (Inode.fresh_regular permissions owner now blank.head?).2.2]
  rfl

include h

/-- Once the blocks are marked too, the tree has the new node in the slot. -/
theorem nodes_after : (c.after (creation c parent k name id blank
      (Inode.fresh type permissions owner now blank.head?) ++
        Effect.allocate (id :: blank))).disk.nodes =
    Function.update (Function.update c.disk.nodes id (some (Node.fresh type))) parent
      (some (.directory (Function.update (c.disk.slotEntries parent) k (some (name, id))))) := by
  rw [← hc.node_after permissions now owner,
    ← (hc.inserts h permissions now owner).nodes_eq h.consistent, after_append]
  exact (hc.written h permissions now owner).mounted.nodes_bookkeeping
    fun _ => Effect.bookkeeping_allocate

end Content.Creates

namespace FileSystem

noncomputable def nodes (fs : FileSystem) : Namespace := fs.content.disk.nodes

/-- What looking up a path answers when it leads to the given result. -/
def found (result : Except Error UInt32) (fs' : FileSystem) :
    EStateM.Result Failure FileSystem Response :=
  match result with
  | .ok id => .ok (.inode id) fs'
  | .error reason => .error (.refused reason) fs'

/-- The entries of a directory as they are shown: their names as text, and their attributes. -/
def shown (fs : FileSystem) (slots : Slots) : List (String × Attributes) :=
  slots.entries.map fun (name, child) => (String.ofList (Utf8.decode name),
    (fs.content.disk.inode child).attributes child)

/-- Operations on names do to the tree what they are named for. -/
structure RefinesNames (fs : FileSystem) : Prop where
  tree : fs.nodes.IsTree
  lookup : ∀ {now text path}, Path.ofString text = .ok path →
    ∃ result fs', fs.nodes.Walks rootId path result ∧
      perform now (.lookup text) fs = found result fs' ∧ fs'.content = fs.content
  /-- A listing has the name and the child of each entry, in the order of the slots. -/
  list : ∀ {now text path id slots}, Path.ofString text = .ok path →
    fs.nodes.Walks rootId path (.ok id) → fs.nodes id = some (.directory slots) →
      ∃ listing fs', perform now (.list text) fs = .ok (.listing listing) fs' ∧
        (listing.map fun entry => (Utf8.encode entry.1.toList, entry.2.inode)) = slots.entries ∧
        fs'.content = fs.content
  create : ∀ {now text permissions type owner response fs'},
    perform now (.create text permissions type owner) fs = .ok response fs' →
      ∃ path name parent slots k id, Path.ofString text = .ok (path ++ [name]) ∧
        fs.nodes.Walks rootId path (.ok parent) ∧ fs.nodes parent = some (.directory slots) ∧
        (∀ j child, slots j ≠ some (name, child)) ∧ slots k = none ∧ (∀ j < k, slots j ≠ none) ∧
        fs.nodes id = none ∧ response = .inode id ∧
        (type = .regular → fs'.content.disk.contents (fs'.content.disk.inode id) = []) ∧
        fs'.nodes = Function.update (Function.update fs.nodes id (some (Node.fresh type))) parent
          (some (.directory (Function.update slots k (some (name, id)))))
  deleteFile_iff : ∀ {now text path}, Path.ofString text = .ok path →
    ((∃ response fs', perform now (.deleteFile text) fs = .ok response fs') ↔
      ∃ id, fs.nodes.Walks rootId path (.ok id) ∧ fs.nodes id = some .file)
  deleteFile : ∀ {now text response fs'}, perform now (.deleteFile text) fs = .ok response fs' →
    ∃ path name parent slots k id, Path.ofString text = .ok (path ++ [name]) ∧
      fs.nodes.Holds path name parent slots k id ∧ fs'.nodes = Function.update
        (Function.update fs.nodes id none) parent (some (.directory (Function.update slots k none)))
  deleteDirectory_iff : ∀ {now text path}, Path.ofString text = .ok path →
    ((∃ response fs', perform now (.deleteDirectory text) fs = .ok response fs') ↔
      ∃ id slots, fs.nodes.Walks rootId path (.ok id) ∧ id ≠ rootId ∧
        fs.nodes id = some (.directory slots) ∧ ∀ k, slots k = none)
  deleteDirectory : ∀ {now text response fs'},
    perform now (.deleteDirectory text) fs = .ok response fs' →
    ∃ path name parent slots k id, Path.ofString text = .ok (path ++ [name]) ∧
      fs.nodes.Holds path name parent slots k id ∧ fs'.nodes = Function.update
        (Function.update fs.nodes id none) parent (some (.directory (Function.update slots k none)))
  rename : ∀ {now source target response fs'},
    perform now (.rename source target) fs = .ok response fs' →
    ∃ path oldName newName parent slots k child,
      Path.ofString source = .ok (path ++ [oldName]) ∧
      Path.ofString target = .ok (path ++ [newName]) ∧
      fs.nodes.Holds path oldName parent slots k child ∧
      fs'.nodes = Function.update fs.nodes parent
        (some (.directory (Function.update slots k (some (newName, child))))) ∧
      ∀ rest : Path, (∀ name ∈ rest, Path.IsComponent name) →
        (∀ result, fs.nodes.Walks rootId (path ++ oldName :: rest) result →
          fs'.nodes.Walks rootId (path ++ newName :: rest) result) ∧
        fs'.nodes.Walks rootId (path ++ oldName :: rest) (.error .notFound)

section

variable {fs fs' : FileSystem} {diskSize now : UInt32} (hsound : fs.content.Sound diskSize)
  (hfaults : fs.device.faults = Faults.none)

include hsound hfaults

/-! ### Questions -/

theorem lookup_refines {text : String} {path : Path} (htext : Path.ofString text = .ok path) :
    ∃ result fs', fs.nodes.Walks rootId path result ∧
      perform now (.lookup text) fs = found result fs' ∧ fs'.content = fs.content := by
  have hwalks := (hsound.mounted.consistent.walks_text htext).mpr rfl
  have hanswer := hsound.mounted.lookup_answer htext
  cases hwalk : fs.content.disk.walk rootId path with
  | ok id =>
    rw [hwalk] at hwalks hanswer
    obtain ⟨fs', hperform, hcontent⟩ := perform_of_answer hfaults (asks_lookup now text) hanswer
    exact ⟨.ok id, fs', hwalks, hperform, hcontent⟩
  | error reason =>
    rw [hwalk] at hwalks hanswer
    obtain ⟨fs', hperform, hcontent⟩ := perform_of_refusal hfaults (asks_lookup now text) hanswer
    exact ⟨.error reason, fs', hwalks, hperform, hcontent⟩

theorem list_shown {text : String} {path : Path} {id : UInt32} {slots : Slots}
    (htext : Path.ofString text = .ok path) (hwalks : fs.nodes.Walks rootId path (.ok id))
    (hnode : fs.nodes id = some (.directory slots)) :
    ∃ fs', perform now (.list text) fs = .ok (.listing (fs.shown slots)) fs' ∧
      fs'.content = fs.content := by
  obtain ⟨-, hdirectory, rfl⟩ := Disk.nodes_eq_directory_iff.mp hnode
  have hwalk := (hsound.mounted.consistent.walks_text htext).mp hwalks
  obtain ⟨fs', hperform, hcontent⟩ := perform_of_answer hfaults (asks_list now text)
    (hsound.mounted.list_answer htext hwalk hdirectory)
  refine ⟨fs', ?_, hcontent⟩
  rw [hperform, List.map_map]
  rfl

omit hfaults in
theorem isComponent_of_entries {id : UInt32} {slots : Slots}
    (hnode : fs.nodes id = some (.directory slots)) {entry : Name × UInt32}
    (hentry : entry ∈ slots.entries) : Path.IsComponent entry.1 := by
  obtain ⟨hid, hdirectory, rfl⟩ := Disk.nodes_eq_directory_iff.mp hnode
  obtain ⟨k, hk⟩ := Slots.mem_entries.mp hentry
  obtain ⟨-, hname, -⟩ := Disk.slotEntries_eq_some_iff.mp hk
  rw [← hname]
  exact hsound.mounted.consistent.storedName_isComponent hid
    (Disk.links_of_slotEntries hdirectory hk)

omit hfaults in
theorem entries_shown {id : UInt32} {slots : Slots}
    (hnode : fs.nodes id = some (.directory slots)) :
    ((fs.shown slots).map fun entry => (Utf8.encode entry.1.toList, entry.2.inode)) =
      slots.entries := by
  rw [shown, List.map_map]
  conv_rhs => rw [← List.map_id slots.entries]
  refine List.map_congr_left fun entry hentry => ?_
  have hbytes := (isComponent_of_entries hsound hnode hentry).encode_decode
  simp only [Function.comp_apply, String.toList_ofList, hbytes]
  rfl

theorem list_refines {text : String} {path : Path} {id : UInt32} {slots : Slots}
    (htext : Path.ofString text = .ok path) (hwalks : fs.nodes.Walks rootId path (.ok id))
    (hnode : fs.nodes id = some (.directory slots)) :
    ∃ listing fs', perform now (.list text) fs = .ok (.listing listing) fs' ∧
      (listing.map fun entry => (Utf8.encode entry.1.toList, entry.2.inode)) = slots.entries ∧
      fs'.content = fs.content := by
  obtain ⟨fs', hperform, hcontent⟩ : ∃ fs', perform now (.list text) fs = _ ∧ _ :=
    list_shown hsound hfaults htext hwalks hnode
  exact ⟨fs.shown slots, fs', hperform, entries_shown hsound hnode, hcontent⟩

/-! ### Creating and removing -/

theorem create_refines {text : String} {permissions : UInt32} {type : FileType} {owner : Owner}
    {response : Response}
    (hperform : perform now (.create text permissions type owner) fs = .ok response fs') :
    ∃ path name parent slots k id, Path.ofString text = .ok (path ++ [name]) ∧
      fs.nodes.Walks rootId path (.ok parent) ∧ fs.nodes parent = some (.directory slots) ∧
      (∀ j child, slots j ≠ some (name, child)) ∧ slots k = none ∧ (∀ j < k, slots j ≠ none) ∧
      fs.nodes id = none ∧ response = .inode id ∧
      (type = .regular → fs'.content.disk.contents (fs'.content.disk.inode id) = []) ∧
      fs'.nodes = Function.update (Function.update fs.nodes id (some (Node.fresh type))) parent
        (some (.directory (Function.update slots k (some (name, id))))) := by
  obtain ⟨update, hplan, rfl, hcontent⟩ := granted_of_perform hsound hfaults
    (transacts_create now text permissions type owner) hperform
  obtain ⟨path, name, parent, k, id, blank, htext, hwalk, hcreates, -, rfl⟩ :=
    hsound.safe.of_create hplan
  have hconsistent := hsound.mounted.consistent
  obtain ⟨hunused, hfirst⟩ := Directory.firstUnused_eq_some_iff.mp hcreates.unused
  refine ⟨path, name, parent, fs.content.disk.slotEntries parent, k, id, htext, ?_, ?_, ?_, ?_, ?_,
    ?_, rfl, ?_, ?_⟩
  · exact (hconsistent.walks_iff Disk.reachable_root fun other hother =>
      Path.isComponent_of_ofString htext (List.mem_append_left [name] hother)).mpr hwalk
  · exact Disk.nodes_eq_directory_iff.mpr ⟨hcreates.reachable, hcreates.directory, rfl⟩
  · exact (Disk.slotEntries_of_find_none hcreates.component).mp hcreates.absent
  · exact Disk.slotEntries_eq_none_iff.mpr hunused
  · intro j hj hnone
    exact Bool.false_ne_true ((Disk.slotEntries_eq_none_iff.mp hnone).symm.trans (hfirst j hj))
  · exact Disk.nodes_of_not_reachable (hcreates.spare id List.mem_cons_self).not_reachable
  · rintro rfl
    rw [hcontent]
    exact hcreates.contents_after permissions now owner _
  · rw [nodes, hcontent]
    exact hcreates.nodes_after hsound.mounted permissions now owner

theorem create_leads {text : String} {path : Path} {permissions id : UInt32} {type : FileType}
    {owner : Owner} (htext : Path.ofString text = .ok path)
    (hperform : perform now (.create text permissions type owner) fs = .ok (.inode id) fs') :
    fs'.nodes.Walks rootId path (.ok id) ∧ fs'.nodes id = some (Node.fresh type) := by
  obtain ⟨update, hplan, hresponse, hcontent⟩ := granted_of_perform hsound hfaults
    (transacts_create now text permissions type owner) hperform
  obtain ⟨parents, name, parent, k, child, blank, htext', hwalk, hcreates, -, rfl⟩ :=
    hsound.safe.of_create hplan
  obtain rfl : id = child := Response.inode.inj hresponse
  obtain rfl : path = parents ++ [name] := Except.ok.inj (htext.symm.trans htext')
  have hwritten := hcreates.written hsound.mounted permissions now owner
  have hinserts := hcreates.inserts hsound.mounted permissions now owner
  have hconsistent := hinserts.consistent hsound.mounted.consistent
  have hreachable := (hinserts.reachable_iff hsound.mounted.consistent).mpr (.inr rfl)
  rw [nodes, hcontent, Content.after_append,
    hwritten.mounted.nodes_bookkeeping fun _ => Effect.bookkeeping_allocate]
  refine ⟨(hconsistent.walks_text htext).mpr
    (hinserts.relists.walk_new hsound.mounted.consistent hcreates.component hcreates.absent hwalk),
    ?_⟩
  rw [Disk.nodes_of_reachable hreachable, hcreates.node_after]

theorem deleteFile_granted_iff {text : String} {path : Path}
    (htext : Path.ofString text = .ok path) :
    (∃ response fs', perform now (.deleteFile text) fs = .ok response fs') ↔
      ∃ id, fs.nodes.Walks rootId path (.ok id) ∧ fs.nodes id = some .file := by
  have hconsistent := hsound.mounted.consistent
  constructor
  · rintro ⟨response, fs', hperform⟩
    obtain ⟨update, hplan, -⟩ :=
      granted_of_perform hsound hfaults (transacts_deleteFile now text) hperform
    obtain ⟨dirs, name, parent, k, id, htext', hentry, hfile, -⟩ :=
      hsound.mounted.deleteFile_eq_ok.mp hplan
    have hresolve := hentry.resolve htext'
    refine ⟨id, (hconsistent.walks_text htext).mpr ?_, Disk.nodes_eq_file_iff.mpr
      ⟨Disk.resolve_reachable hresolve, hfile⟩⟩
    rwa [Disk.resolve_zero htext] at hresolve
  · rintro ⟨id, hwalks, hnode⟩
    obtain ⟨-, hfile⟩ := Disk.nodes_eq_file_iff.mp hnode
    have hresolve := (Disk.resolve_zero htext).trans ((hconsistent.walks_text htext).mp hwalks)
    obtain ⟨dirs, name, parent, k, htext', hentry⟩ :=
      Disk.entry_of_file hconsistent hresolve hfile
    have hplan := hsound.mounted.deleteFile_eq_ok.mpr
      ⟨dirs, name, parent, k, id, htext', hentry, hfile, rfl⟩
    obtain ⟨fs', hperform, -⟩ :=
      perform_of_granted hsound hfaults (transacts_deleteFile now text) hplan
    exact ⟨_, fs', hperform⟩

theorem deleteFile_refines {text : String} {response : Response}
    (hperform : perform now (.deleteFile text) fs = .ok response fs') :
    ∃ path name parent slots k id, Path.ofString text = .ok (path ++ [name]) ∧
      fs.nodes.Holds path name parent slots k id ∧ fs'.nodes = Function.update
        (Function.update fs.nodes id none) parent
          (some (.directory (Function.update slots k none))) := by
  obtain ⟨update, hplan, -, hcontent⟩ :=
    granted_of_perform hsound hfaults (transacts_deleteFile now text) hperform
  obtain ⟨path, name, parent, k, id, htext, hentry, hfile, rfl⟩ :=
    hsound.mounted.deleteFile_eq_ok.mp hplan
  refine ⟨path, name, parent, _, k, id, htext,
    hsound.mounted.consistent.holds_of_entry htext hentry, ?_⟩
  rw [nodes, hcontent]
  exact hsound.mounted.nodes_detached hentry.reachable hentry.links (Disk.leaf_of_file hfile) _

theorem deleteDirectory_granted_iff {text : String} {path : Path}
    (htext : Path.ofString text = .ok path) :
    (∃ response fs', perform now (.deleteDirectory text) fs = .ok response fs') ↔
      ∃ id slots, fs.nodes.Walks rootId path (.ok id) ∧ id ≠ rootId ∧
        fs.nodes id = some (.directory slots) ∧ ∀ k, slots k = none := by
  have hconsistent := hsound.mounted.consistent
  constructor
  · rintro ⟨response, fs', hperform⟩
    obtain ⟨update, hplan, -⟩ :=
      granted_of_perform hsound hfaults (transacts_deleteDirectory now text) hperform
    obtain ⟨dirs, name, parent, k, id, htext', hentry, hdirectory, hempty, -⟩ :=
      hsound.mounted.deleteDirectory_eq_ok.mp hplan
    have hresolve := hentry.resolve htext'
    refine ⟨id, _, (hconsistent.walks_text htext).mpr ?_, ?_, Disk.nodes_eq_directory_iff.mpr
      ⟨Disk.resolve_reachable hresolve, hdirectory, rfl⟩, fun j =>
        Disk.slotEntries_eq_none_iff.mpr (hempty j)⟩
    · rwa [Disk.resolve_zero htext] at hresolve
    · rintro rfl
      exact hconsistent.not_links_root hentry.reachable hentry.links
  · rintro ⟨id, slots, hwalks, hroot, hnode, hempty⟩
    obtain ⟨-, hdirectory, rfl⟩ := Disk.nodes_eq_directory_iff.mp hnode
    have hresolve := (Disk.resolve_zero htext).trans ((hconsistent.walks_text htext).mp hwalks)
    obtain ⟨dirs, name, parent, k, htext', hentry⟩ := Disk.entry_of_resolve hresolve hroot
    have hplan := hsound.mounted.deleteDirectory_eq_ok.mpr
      ⟨dirs, name, parent, k, id, htext', hentry, hdirectory,
        fun j => Disk.slotEntries_eq_none_iff.mp (hempty j), rfl⟩
    obtain ⟨fs', hperform, -⟩ :=
      perform_of_granted hsound hfaults (transacts_deleteDirectory now text) hplan
    exact ⟨_, fs', hperform⟩

theorem deleteDirectory_refines {text : String} {response : Response}
    (hperform : perform now (.deleteDirectory text) fs = .ok response fs') :
    ∃ path name parent slots k id, Path.ofString text = .ok (path ++ [name]) ∧
      fs.nodes.Holds path name parent slots k id ∧ fs'.nodes = Function.update
        (Function.update fs.nodes id none) parent
          (some (.directory (Function.update slots k none))) := by
  obtain ⟨update, hplan, -, hcontent⟩ :=
    granted_of_perform hsound hfaults (transacts_deleteDirectory now text) hperform
  obtain ⟨path, name, parent, k, id, htext, hentry, -, hempty, rfl⟩ :=
    hsound.mounted.deleteDirectory_eq_ok.mp hplan
  refine ⟨path, name, parent, _, k, id, htext,
    hsound.mounted.consistent.holds_of_entry htext hentry, ?_⟩
  rw [nodes, hcontent]
  exact hsound.mounted.nodes_detached hentry.reachable hentry.links (Disk.leaf_of_unused hempty) _

/-! ### Renaming -/

omit hsound hfaults in
private theorem components {path rest : Path} {name : Name}
    (hpath : ∀ other ∈ path, Path.IsComponent other) (hname : Path.IsComponent name)
    (hrest : ∀ other ∈ rest, Path.IsComponent other) :
    ∀ other ∈ path ++ name :: rest, Path.IsComponent other := by
  intro other hother
  rcases List.mem_append.mp hother with hmem | hmem
  · exact hpath other hmem
  · rcases List.mem_cons.mp hmem with rfl | hmem
    · exact hname
    · exact hrest other hmem

theorem renames_of_perform {source target : String} {response : Response}
    (hperform : perform now (.rename source target) fs = .ok response fs') :
    ∃ path oldName newName parent k child, Path.ofString source = .ok (path ++ [oldName]) ∧
      Path.ofString target = .ok (path ++ [newName]) ∧
      fs.content.disk.Entry path oldName parent k child ∧
      fs.content.disk.Renames fs'.content.disk parent k newName ∧
      fs'.content = fs.content.after [fs.content.disk.renamed parent k newName] := by
  obtain ⟨update, hplan, -, hcontent⟩ :=
    granted_of_perform hsound hfaults (transacts_rename now source target) hperform
  obtain ⟨path, oldName, newName, parent, k, child, hsource, htarget, hentry, hfind, rfl⟩ :=
    hsound.mounted.of_rename hplan
  have hnew : Path.IsComponent newName := Path.isComponent_of_ofString htarget (by simp)
  refine ⟨path, oldName, newName, parent, k, child, hsource, htarget, hentry, ?_, hcontent⟩
  rw [hcontent]
  exact Disk.renames_set hentry.reachable hentry.links hnew hfind

theorem rename_refines {source target : String} {response : Response}
    (hperform : perform now (.rename source target) fs = .ok response fs') :
    ∃ path oldName newName parent slots k child,
      Path.ofString source = .ok (path ++ [oldName]) ∧
      Path.ofString target = .ok (path ++ [newName]) ∧
      fs.nodes.Holds path oldName parent slots k child ∧
      fs'.nodes = Function.update fs.nodes parent
        (some (.directory (Function.update slots k (some (newName, child))))) ∧
      ∀ rest : Path, (∀ name ∈ rest, Path.IsComponent name) →
        (∀ result, fs.nodes.Walks rootId (path ++ oldName :: rest) result →
          fs'.nodes.Walks rootId (path ++ newName :: rest) result) ∧
        fs'.nodes.Walks rootId (path ++ oldName :: rest) (.error .notFound) := by
  obtain ⟨path, oldName, newName, parent, k, child, hsource, htarget, hentry, hrenames, -⟩ :=
    renames_of_perform hsound hfaults hperform
  have hconsistent := hsound.mounted.consistent
  have hold : Path.IsComponent oldName := Path.isComponent_of_ofString hsource (by simp)
  have hpath : ∀ name ∈ path, Path.IsComponent name := fun name hname =>
    Path.isComponent_of_ofString hsource (List.mem_append_left [oldName] hname)
  have hconsistent' := hrenames.consistent hconsistent
  refine ⟨path, oldName, newName, parent, _, k, child, hsource, htarget,
    hconsistent.holds_of_entry hsource hentry, ?_, fun rest hrest => ⟨?_, ?_⟩⟩
  · rw [nodes, hrenames.nodes_eq hconsistent, hentry.inode]
    rfl
  · intro result hwalks
    rw [nodes, hconsistent'.walks_iff Disk.reachable_root
      (components hpath hrenames.component hrest), hrenames.walk_new hconsistent hentry rest]
    exact (hconsistent.walks_iff Disk.reachable_root (components hpath hold hrest)).mp hwalks
  · rw [nodes, hconsistent'.walks_iff Disk.reachable_root (components hpath hold hrest)]
    exact hrenames.walk_old hconsistent hentry hold rest

theorem refinesNames_of_sound : fs.RefinesNames where
  tree := hsound.mounted.consistent.isTree
  lookup := lookup_refines hsound hfaults
  list := list_refines hsound hfaults
  create := create_refines hsound hfaults
  deleteFile_iff := deleteFile_granted_iff hsound hfaults
  deleteFile := deleteFile_refines hsound hfaults
  deleteDirectory_iff := deleteDirectory_granted_iff hsound hfaults
  deleteDirectory := deleteDirectory_refines hsound hfaults
  rename := rename_refines hsound hfaults

end

/-- Whatever calls came before, the operations on names refine the tree. -/
theorem Reached.refines_names {diskSize : UInt32} {fs : FileSystem} (h : Reached diskSize fs) :
    fs.RefinesNames :=
  refinesNames_of_sound h.sound.2 h.sound.1

/-- A file that is created in a new file system, and renamed. -/
theorem refines_names_after_rename : ∃ volume device,
    Device.format 16 0 (Device.ofDisk (Disk.blank 16)) = .ok volume device ∧
      (((FileSystem.mk device volume).after 1 (.create "/a" 0o644 .regular ⟨0, 0⟩)).after 2
        (.rename "/a" "/b")).RefinesNames := by
  obtain ⟨volume, device, hformat⟩ := Device.exists_formatted_blank
  have hfaults : (Device.ofDisk (Disk.blank 16)).faults = Faults.none := rfl
  have hreached : Reached 16 ⟨device, volume⟩ := .formatted hfaults hformat
  exact ⟨volume, device, hformat, Reached.refines_names (.called 2 _ (.called 1 _ hreached))⟩

end FileSystem

end BlockFS
