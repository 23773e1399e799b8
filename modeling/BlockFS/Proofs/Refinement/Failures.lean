import BlockFS.Proofs.Invariant.Counters
import BlockFS.Proofs.Refinement.Files

/-!
Creating a file under faults. The slot that names a new file is written before the blank slots of a
new directory, and before its blocks are marked on the disk. A create that fails before it has
written that slot leaves the tree as it was, with every block of it marked. One that fails after it
has linked the name: the path leads to the new inode, though the caller is told of a failure, and
nothing on the disk says that its block is in use.
-/

set_option autoImplicit false
set_option relaxedAutoImplicit false

namespace BlockFS

namespace Content

variable {faults : Faults} {c c' : Content} {diskSize parent id : UInt32} {k : Fin slotCount}
  {name : Name} {blank : List UInt32} {type : FileType} {inode : Inode}

theorem Sound.isSet_of_spare (h : c.Sound diskSize) {block : UInt32}
    (hspare : c.disk.Spare diskSize block) :
    Bitmap.isSet (c.disk.block bitmapId) block.toNat = false := by
  rw [h.tracks.saved]
  exact Bool.eq_false_iff.mpr fun hset => hspare.not_inUse ((h.tracks.marked block).mp hset)

theorem Creates.target_completion (hmounted : c.Mounted diskSize)
    (hc : Creates c diskSize parent k name id blank type) {effect : Effect}
    (h : effect ∈ completion id blank) {block : UInt32} (htarget : effect.target = some block) :
    ¬ c.disk.Structural block := by
  rcases List.mem_append.mp h with h | h
  · obtain ⟨other, hother, rfl⟩ := List.mem_map.mp h
    obtain rfl := Option.some.inj htarget
    exact (hc.spare other (List.mem_cons_of_mem id hother)).not_structural
  · exact hmounted.not_structural (.inr (Effect.bookkeeping_allocate h block htarget))

theorem Creates.relists_past (h : c.Mounted diskSize)
    (hc : Creates c diskSize parent k name id blank type) (inode : Inode) {first : List Effect}
    (hfirst : ∀ effect ∈ first, effect ∈ completion id blank) :
    Disk.Relists c.disk ((c.after (c.linking parent k name id inode)).after first).disk parent
      ((c.disk.slots parent).put k (Slot.entry id name)) := by
  have hspare := hc.spare id List.mem_cons_self
  have hrest : ∀ {block}, c.disk.Structural block →
      ∀ effect ∈ first, effect.target ≠ some block :=
    fun hstructural effect heffect htarget =>
      hc.target_completion h (hfirst effect heffect) htarget hstructural
  have hslots := Disk.structural_slotsBlock hc.reachable hc.directory
  apply Disk.relists_new hc.reachable hc.directory hspare.high h.high
  · rw [Content.block_after (hrest hslots)]
    simp only [linking, after_cons, after_nil, Disk.attached, Effect.storeSlots, Effect.change,
      Disk.block_set, if_pos]
  · intro block hstructural hne
    have hid : id ≠ block := fun heq => hspare.not_structural (heq ▸ hstructural)
    rw [Content.block_after (hrest hstructural)]
    simp only [linking, after_cons, after_nil, Disk.attached, Effect.storeSlots, Effect.change,
      Disk.block_set, if_neg (Ne.symm hne), if_neg hid]

theorem Creates.walk_absent (hc : Creates c diskSize parent k name id blank type) {path : Path}
    (hwalk : c.disk.walk rootId path = .ok parent) :
    c.disk.walk rootId (path ++ [name]) = .error .notFound := by
  rw [Disk.walk_append, hwalk]
  show c.disk.walk parent [name] = .error .notFound
  rw [Disk.walk, if_pos hc.directory, hc.absent]

/-- Where making a file stops, the tree is as it was and safe, or the slot is written and what
stopped comes behind it. -/
theorem Creates.of_stops (h : c.Safe diskSize)
    (hc : Creates c diskSize parent k name id blank type)
    (hallowed : Effect.AllAllowed (creation c parent k name id blank inode ++
      Effect.allocate (id :: blank)) c)
    (hstops : Stops faults c (creation c parent k name id blank inode ++
      Effect.allocate (id :: blank)) c') :
    (Disk.SameTree c.disk c'.disk ∧ c'.Safe diskSize) ∨
      ∃ first effect rest, completion id blank = first ++ effect :: rest ∧
        c' = (c.after (c.linking parent k name id inode)).after first ∧
        ¬ effect.Served faults := by
  cases hstops with
  | here => exact .inl ⟨fun _ => rfl, h⟩
  | later hstops =>
    cases hstops with
    | here => exact .inl (hc.store_inode h inode)
    | later hstops => exact .inr (hstops.exists_split hallowed.2.2)

theorem Creates.target_linking (h : c.Mounted diskSize)
    (hc : Creates c diskSize parent k name id blank type) (inode : Inode) :
    ∀ effect ∈ c.linking parent k name id inode, effect.target ≠ some bitmapId := by
  have hslots := Disk.refers_slotsBlock hc.reachable hc.directory
  intro effect heffect htarget
  simp only [linking, List.mem_cons, List.not_mem_nil, or_false] at heffect
  rcases heffect with rfl | rfl
  · refine (hc.spare id List.mem_cons_self).not_inUse (.inr (.inl ?_))
    exact Option.some.inj htarget
  · exact (h.consistent.ne_reserved h.low hslots).2 (Option.some.inj htarget)

theorem Creates.covers_past (h : c.Safe diskSize)
    (hc : Creates c diskSize parent k name id blank type) (inode : Inode) {first : List Effect}
    (hfirst : ∀ effect ∈ first, effect ∈ completion id blank) :
    ((c.after (c.linking parent k name id inode)).after first).Covers c.disk.InUse := by
  have hspare : ∀ block ∈ id :: blank, block ≠ bitmapId := fun block hblock heq =>
    (hc.spare block hblock).not_inUse (.inr (.inl heq))
  have hslots := Disk.refers_slotsBlock hc.reachable hc.directory
  rw [← after_append]
  refine h.covers.after_clearsNone h.mounted.fits fun effect heffect => ?_
  rcases List.mem_append.mp heffect with hlinking | hrest
  · rcases List.mem_cons.mp hlinking with rfl | hlinking
    · exact hspare id List.mem_cons_self
    · obtain rfl := List.mem_singleton.mp hlinking
      exact (h.mounted.consistent.ne_reserved h.mounted.low hslots).2
  · rcases List.mem_append.mp (hfirst effect hrest) with hblank | htaken
    · obtain ⟨block, hblock, rfl⟩ := List.mem_map.mp hblank
      exact hspare block (List.mem_cons_of_mem id hblock)
    · simp only [Effect.allocate, List.mem_cons, List.not_mem_nil, or_false] at htaken
      rcases htaken with rfl | rfl | rfl <;> trivial

theorem append_allocate (effects : List Effect) (blocks : List UInt32) :
    effects ++ Effect.allocate blocks =
      (effects ++ [.mark blocks true]) ++ .saveBitmap :: [.charge blocks.length] := by
  rw [List.append_assoc]
  rfl

/-- Marking and counting blocks are served in any case, so what comes behind the slot that names a
new file stops at the bitmap or before it. -/
theorem Creates.target_before (hc : Creates c diskSize parent k name id blank type)
    {first rest : List Effect} {effect : Effect}
    (hsplit : completion id blank = first ++ effect :: rest) (hunserved : ¬ effect.Served faults) :
    ∀ other ∈ first, other.target ≠ some bitmapId := by
  have hfirst : ∀ other ∈ first, other ∈
      (blank.map fun block => Effect.store block Block.zero) ++ [.mark (id :: blank) true] := by
    rw [completion, append_allocate] at hsplit
    rcases List.append_eq_append_iff.mp hsplit with ⟨others, rfl, hothers⟩ | ⟨others, hothers, -⟩
    · rcases List.cons_eq_append_iff.mp hothers with ⟨rfl, -⟩ | ⟨others, -, hcharge⟩
      · rw [List.append_nil]
        exact fun _ hother => hother
      · have heffect : effect ∈ [Effect.charge (id :: blank).length] := by
          rw [hcharge]
          exact List.mem_append_right _ List.mem_cons_self
        obtain rfl := List.mem_singleton.mp heffect
        exact absurd trivial hunserved
    · intro other hother
      rw [hothers]
      exact List.mem_append_left _ hother
  intro other hother
  rcases List.mem_append.mp (hfirst other hother) with hblank | hmark
  · intro htarget
    obtain ⟨block, hblock, rfl⟩ := List.mem_map.mp hblank
    exact (hc.spare block (List.mem_cons_of_mem id hblock)).not_inUse
      (.inr (.inl (Option.some.inj htarget)))
  · exact Effect.target_ne_of_mark bitmapId other hmark

theorem Creates.unsaved (h : c.Sound diskSize) (hc : Creates c diskSize parent k name id blank type)
    (permissions now : UInt32) (owner : Owner) {effects : List Effect}
    (heffects : effects = creation c parent k name id blank
      (Inode.fresh type permissions owner now blank.head?) ++ [.mark (id :: blank) true]) :
    Effect.AllAllowed effects c ∧ (∀ effect ∈ effects, effect.target ≠ some bitmapId) ∧
      (c.after effects).Mounted diskSize ∧
      Disk.Inserts c.disk (c.after effects).disk diskSize parent k name id ∧
      Bitmap.isSet ((c.after effects).disk.block bitmapId) id.toNat = false := by
  have hwritten := hc.written h.mounted permissions now owner
  have hspare := hc.spare id List.mem_cons_self
  have hdisk : (c.after effects).disk = (c.after (creation c parent k name id blank
      (Inode.fresh type permissions owner now blank.head?))).disk := by
    rw [heffects, after_append, after_cons, after_nil, Effect.change]
  have hproper : ∀ effect ∈ effects, effect.target ≠ some bitmapId := by
    intro effect heffect
    rw [heffects] at heffect
    exact (List.mem_append.mp heffect).elim (hwritten.target effect)
      (Effect.target_ne_of_mark bitmapId effect)
  refine ⟨?_, hproper, ?_, ?_, ?_⟩
  · rw [heffects]
    refine Effect.allAllowed_append.mpr ⟨hwritten.allowed, fun block hblock => ?_, trivial⟩
    rw [hwritten.mounted.bitmap]
    exact (hc.spare block hblock).high
  · rw [heffects, after_append]
    refine (hwritten.mounted.bookkeeping fun effect heffect block htarget => ?_).1
    exact absurd htarget (Effect.target_ne_of_mark block effect heffect)
  · rw [hdisk]
    exact hc.inserts h.mounted permissions now owner
  · rw [Content.block_after hproper, h.isSet_of_spare hspare]

end Content

namespace FileSystem

variable {fs fs' : FileSystem} {diskSize now : UInt32}

/-- What a create has left that failed past the slot. The slot names the new inode, and the rest of
the tree is as it was, with every block of it marked. The bitmap on the disk is as it was, so the
new inode is not marked there; the write that failed is that of the bitmap, or that of the blank
slots of a new directory. -/
structure LeftLinked (fs fs' : FileSystem) (faults : Faults) (type : FileType) (path : Path)
    (id : UInt32) : Prop where
  absent : fs.nodes.Walks rootId path (.error .notFound)
  found : fs'.content.disk.walk rootId path = .ok id
  fresh : fs.nodes id = none
  nodes : ∃ above name parent slots k, path = above ++ [name] ∧
    fs.nodes.Walks rootId above (.ok parent) ∧ fs.nodes parent = some (.directory slots) ∧
    slots k = none ∧ ∀ {other node}, fs.nodes other = some node → fs'.content.disk.node other =
      if other = parent then .directory (Function.update slots k (some (name, id))) else node
  marked : ∀ {place block}, fs.content.disk.Refers place block →
    Bitmap.isSet fs'.content.volume.bitmap.map block.toNat = true ∧
      Bitmap.isSet (fs'.content.disk.block bitmapId) block.toNat = true
  saved : fs'.content.disk.block bitmapId = fs.content.disk.block bitmapId
  unmarked : Bitmap.isSet (fs'.content.disk.block bitmapId) id.toNat = false
  fault : ∃ accesses completed block, faults.write accesses completed block = true ∧
    (block = bitmapId ∨ type = .directory ∧
      fs.volume.bitmap.firstFit reservedBlocks type.blockCount = .ok [id, block])

theorem fault_past_slot {faults : Faults} {b : Bitmap} {type : FileType} {id : UInt32}
    {blank : List UInt32} (hlength : (id :: blank).length = type.blockCount)
    (hfit : b.firstFit reservedBlocks type.blockCount = .ok (id :: blank)) {effect : Effect}
    (heffect : effect ∈ Content.completion id blank) (hunserved : ¬ effect.Served faults) :
    ∃ accesses completed block, faults.write accesses completed block = true ∧
      (block = bitmapId ∨ type = .directory ∧
        b.firstFit reservedBlocks type.blockCount = .ok [id, block]) := by
  have hfault : ∀ block, ¬ (∀ accesses completed, faults.write accesses completed block = false) →
      ∃ accesses completed, faults.write accesses completed block = true := by
    intro block hnot
    simpa using hnot
  rcases List.mem_append.mp heffect with hblank | htaken
  · obtain ⟨block, hblock, rfl⟩ := List.mem_map.mp hblank
    obtain ⟨accesses, completed, hwrite⟩ := hfault block hunserved
    refine ⟨accesses, completed, block, hwrite, .inr ?_⟩
    cases type with
    | regular =>
      obtain rfl : blank = [] := List.length_eq_zero_iff.mp (Nat.succ.inj hlength)
      cases hblock
    | directory =>
      obtain ⟨slots, rfl⟩ : ∃ slots, blank = [slots] :=
        List.length_eq_one_iff.mp (Nat.succ.inj hlength)
      obtain rfl := List.mem_singleton.mp hblock
      exact ⟨rfl, hfit⟩
  · simp only [Effect.allocate, List.mem_cons, List.not_mem_nil, or_false] at htaken
    rcases htaken with rfl | rfl | rfl
    · exact absurd trivial hunserved
    · obtain ⟨accesses, completed, hwrite⟩ := hfault bitmapId hunserved
      exact ⟨accesses, completed, bitmapId, hwrite, .inl rfl⟩
    · exact absurd trivial hunserved

theorem leftLinked (hsound : fs.content.Sound diskSize) {faults : Faults} {text : String}
    {path : Path} {name : Name} {parent id : UInt32} {k : Fin slotCount} {blank : List UInt32}
    {type : FileType} {inode : Inode} (htext : Path.ofString text = .ok (path ++ [name]))
    (hwalk : fs.content.disk.walk rootId path = .ok parent)
    (hcreates : fs.content.Creates diskSize parent k name id blank type)
    (hfit : fs.volume.bitmap.firstFit reservedBlocks type.blockCount = .ok (id :: blank))
    {first rest : List Effect} {effect : Effect}
    (hsplit : Content.completion id blank = first ++ effect :: rest)
    (hcontent : fs'.content =
      (fs.content.after (fs.content.linking parent k name id inode)).after first)
    (hunserved : ¬ effect.Served faults) : fs.LeftLinked fs' faults type (path ++ [name]) id := by
  have hconsistent := hsound.mounted.consistent
  have hspare := hcreates.spare id List.mem_cons_self
  have hfirst : ∀ other ∈ first, other ∈ Content.completion id blank := by
    intro other hother
    rw [hsplit]
    exact List.mem_append_left _ hother
  have hrelists := hcreates.relists_past hsound.mounted inode hfirst
  have hcovers := hcreates.covers_past hsound.safe inode hfirst
  rw [← hcontent] at hrelists hcovers
  have hsaved : fs'.content.disk.block bitmapId = fs.content.disk.block bitmapId := by
    rw [hcontent, Content.block_after (hcreates.target_before hsplit hunserved),
      Content.block_after (hcreates.target_linking hsound.mounted inode)]
  have habove : ∀ other ∈ path, Path.IsComponent other := fun other hother =>
    Path.isComponent_of_ofString htext (List.mem_append_left [name] hother)
  have hunused := (Directory.firstUnused_eq_some_iff.mp hcreates.unused).1
  refine ⟨?_, ?_, ?_, ?_, ?_, hsaved, ?_, ?_⟩
  · exact (hconsistent.walks_text htext).mpr (hcreates.walk_absent hwalk)
  · exact hrelists.walk_new hconsistent hcreates.component hcreates.absent hwalk
  · exact Disk.nodes_of_not_reachable hspare.not_reachable
  · refine ⟨path, name, parent, fs.content.disk.slotEntries parent, k, rfl,
      (hconsistent.walks_iff Disk.reachable_root habove).mpr hwalk,
      Disk.nodes_eq_directory_iff.mpr ⟨hcreates.reachable, hcreates.directory, rfl⟩,
      Disk.slotEntries_eq_none_iff.mpr hunused, fun {other node} hnode => ?_⟩
    have hother : fs.content.disk.Reachable other :=
      Disk.nodes_ne_none_iff.mp (by rw [← nodes, hnode]; exact Option.some_ne_none node)
    obtain rfl : fs.content.disk.node other = node :=
      Option.some.inj ((Disk.nodes_of_reachable hother).symm.trans hnode)
    split
    · rename_i heq
      rw [heq, hrelists.node_self hconsistent rfl, Disk.listed_entry hcreates.component]
    · exact hrelists.node_of_ne hconsistent hother ‹_›
  · intro place block hplace
    exact ⟨hcovers.marked (Disk.inUse_of_refers hplace),
      hcovers.saved (Disk.inUse_of_refers hplace)⟩
  · rw [hsaved, hsound.isSet_of_spare hspare]
  · refine fault_past_slot hcreates.length hfit ?_ hunserved
    rw [hsplit]
    exact List.mem_append_right _ List.mem_cons_self

/-- A create that fails leaves the tree as it was, with every block of it marked, or it has linked
the name and changed nothing else of the tree. -/
theorem Reached.failed_create (h : Reached diskSize fs) (faults : Faults) {text : String}
    {permissions : UInt32} {type : FileType} {owner : Owner} {failure : Failure}
    (hperform : perform now (.create text permissions type owner) (fs.withFaults faults) =
      .error failure fs') :
    (fs'.nodes = fs.nodes ∧ fs'.content.LiveBlocksMarked diskSize) ∨
      ∃ path id, Path.ofString text = .ok path ∧ fs.LeftLinked fs' faults type path id := by
  obtain ⟨-, hsound⟩ := h.sound
  have htransact := transact_of_perform (transacts_create now text permissions type owner)
    hperform
  have hfits : (fs.withFaults faults).volume.bitmap.Fits := hsound.mounted.fits
  have hending := transact_ending (fun v => v.create now text permissions type owner) hfits
  rw [htransact] at hending
  cases hending with
  | refused hsame =>
    refine .inl ⟨congrArg (Disk.nodes ∘ Content.disk) hsame.2, ?_⟩
    rw [hsame.2]
    exact hsound.safe.liveBlocksMarked
  | stopped hplan hfaults hstops =>
    have hallowed := (hsound.restores_create hplan).1
    obtain ⟨path, name, parent, k, id, blank, htext, hwalk, hcreates, hfit, rfl⟩ :=
      hsound.safe.of_create hplan
    rcases hcreates.of_stops hsound.safe hallowed hstops with
      ⟨hsame, hsafe⟩ | ⟨first, effect, rest, hsplit, hcontent, hunserved⟩
    · exact .inl ⟨hsame.sameEntries.nodes_eq, hsafe.liveBlocksMarked⟩
    · exact .inr ⟨path ++ [name], id, htext,
        leftLinked hsound htext hwalk hcreates hfit hsplit hcontent hunserved⟩

/-- Where a create succeeds, the same create fails if the bitmap cannot be written, but it has
linked the name all the same: a path that led nowhere leads to an inode that is not marked on the
disk. -/
theorem Reached.create_unsaved (h : Reached diskSize fs) {text : String} {permissions id : UInt32}
    {type : FileType} {owner : Owner}
    (hperform : perform now (.create text permissions type owner) fs = .ok (.inode id) fs') :
    ∃ asked failed found, perform now (.lookup text) fs = .error (.refused .notFound) asked ∧
      perform now (.create text permissions type owner) (fs.withFaults Faults.onBitmap) =
        .error (.refused .io) failed ∧
      perform now (.lookup text) (failed.withFaults Faults.none) = .ok (.inode id) found ∧
      failed.content.disk.Reachable id ∧
      Bitmap.isSet (failed.content.disk.block bitmapId) id.toNat = false := by
  obtain ⟨hfaults, hsound⟩ := h.sound
  obtain ⟨update, hplan, hresponse, -⟩ := granted_of_perform hsound hfaults
    (transacts_create now text permissions type owner) hperform
  obtain ⟨path, name, parent, k, child, blank, htext, hwalk, hcreates, -, rfl⟩ :=
    hsound.safe.of_create hplan
  obtain rfl : id = child := Response.inode.inj hresponse
  obtain ⟨hallowed, hothers, hmounted, hinserts, hclear⟩ :=
    hcreates.unsaved hsound permissions now owner rfl
  have heffects : ((Request.create text permissions type owner).effects fs.volume now).answer
      fs.device.disk = .ok _ := Query.answer_map_eq_ok.mpr ⟨_, hplan, rfl⟩
  have hsplit := Content.append_allocate (fs.content.creation parent k name id blank
    (Inode.fresh type permissions owner now blank.head?)) (id :: blank)
  obtain ⟨failed, hfailed, hcontent⟩ :=
    perform_unsaved hsound.mounted heffects hsplit hothers hallowed
  rw [← hcontent] at hmounted hinserts hclear
  have hbefore := hsound.mounted.lookup_answer htext
  rw [hcreates.walk_absent hwalk] at hbefore
  obtain ⟨asked, hasked, -⟩ := perform_of_refusal hfaults (asks_lookup now text) hbefore
  have hafter := hmounted.lookup_answer htext
  rw [hinserts.relists.walk_new hsound.mounted.consistent hcreates.component hcreates.absent
    hwalk] at hafter
  have hnone : (failed.withFaults Faults.none).device.faults = Faults.none := rfl
  obtain ⟨found, hfound, -⟩ := perform_of_answer hnone (asks_lookup now text) hafter
  exact ⟨asked, failed, found, hasked, hfailed, hfound,
    hinserts.child_reachable hsound.mounted.consistent, hclear⟩

/-- The bitmap of a new file system cannot be written while a file is created: the slot is left to
name it. -/
theorem failed_create_of_unsaved : ∃ volume device failed path id,
    Device.format 16 0 (Device.ofDisk (Disk.blank 16)) = .ok volume device ∧
      perform 1 (.create "/a" 0o644 .regular ⟨0, 0⟩)
        ((FileSystem.mk device volume).withFaults Faults.onBitmap) = .error (.refused .io) failed ∧
      Path.ofString "/a" = .ok path ∧
      (FileSystem.mk device volume).LeftLinked failed Faults.onBitmap .regular path id := by
  obtain ⟨volume, device, fs, id, hformat, hreached, hperform⟩ := exists_created
  obtain ⟨-, failed, -, -, hfailed, -, hreachable, hclear⟩ := hreached.create_unsaved hperform
  rcases hreached.failed_create _ hfailed with ⟨-, hmarked⟩ | ⟨path, id, htext, hleft⟩
  · -- The new inode is not marked on the disk.
    obtain ⟨place, hplace, -⟩ := hreachable.referred
    exact absurd (hmarked.onDisk hplace) (by rw [hclear]; decide)
  · exact ⟨volume, device, failed, path, id, hformat, hfailed, htext, hleft⟩

/-- A file that is not there is found after its creation has failed. -/
theorem found_though_failed : ∃ volume device asked failed found id,
    Device.format 16 0 (Device.ofDisk (Disk.blank 16)) = .ok volume device ∧
      perform 1 (.lookup "/a") ⟨device, volume⟩ = .error (.refused .notFound) asked ∧
      perform 1 (.create "/a" 0o644 .regular ⟨0, 0⟩)
        ((FileSystem.mk device volume).withFaults Faults.onBitmap) = .error (.refused .io) failed ∧
      perform 1 (.lookup "/a") (failed.withFaults Faults.none) = .ok (.inode id) found ∧
      failed.content.disk.Reachable id ∧
      Bitmap.isSet (failed.content.disk.block bitmapId) id.toNat = false := by
  obtain ⟨volume, device, fs, id, hformat, hreached, hperform⟩ := exists_created
  obtain ⟨asked, failed, found, hcreate⟩ := hreached.create_unsaved hperform
  exact ⟨volume, device, asked, failed, found, id, hformat, hcreate⟩

end FileSystem

end BlockFS
