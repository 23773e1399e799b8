import BlockFS.Proofs.Invariant.Writes

/-!
The writes of a new file: its inode, the slot that names it, and the blank slots of a directory.
Once all of them are made the file is in the tree, and its blocks are the ones that are in use in
addition.
-/

set_option autoImplicit false
set_option relaxedAutoImplicit false

namespace BlockFS.Content

variable {c : Content} {diskSize : UInt32}

def creation (c : Content) (parent : UInt32) (k : Fin slotCount) (name : Name) (id : UInt32)
    (blank : List UInt32) (inode : Inode) : List Effect :=
  .store id inode.encode :: c.disk.attached parent k name id ::
    blank.map fun block => .store block Block.zero

/-- The writes that make a new file, up to the slot that names it. -/
def linking (c : Content) (parent : UInt32) (k : Fin slotCount) (name : Name) (id : UInt32)
    (inode : Inode) : List Effect :=
  [.store id inode.encode, c.disk.attached parent k name id]

/-- What is left of a create once that slot is written. -/
def completion (id : UInt32) (blank : List UInt32) : List Effect :=
  (blank.map fun block => .store block Block.zero) ++ Effect.allocate (id :: blank)

/-- A directory, a free slot of it, a name for it, and spare blocks for a file of a type. -/
structure Creates (c : Content) (diskSize parent : UInt32) (k : Fin slotCount) (name : Name)
    (id : UInt32) (blank : List UInt32) (type : FileType) : Prop where
  reachable : c.disk.Reachable parent
  directory : (c.disk.inode parent).isDirectory = true
  absent : (c.disk.slots parent).find name = none
  unused : (c.disk.slots parent).firstUnused = some k
  component : Path.IsComponent name
  depth : ∃ depth, c.disk.AtDepth depth parent ∧ depth < maxPathDepth
  length : (id :: blank).length = type.blockCount
  nodup : (id :: blank).Nodup
  spare : ∀ block ∈ id :: blank, c.disk.Spare diskSize block

private theorem block_after_blank {blank : List UInt32} (c : Content) (block : UInt32) :
    (c.after (blank.map fun block => .store block Block.zero)).disk.block block =
      if block ∈ blank then Block.zero else c.disk.block block := by
  induction blank generalizing c with
  | nil => rfl
  | cons other rest ih =>
    rw [List.map_cons, after_cons, ih, Effect.change, Disk.block_set]
    by_cases hrest : block ∈ rest
    · rw [if_pos hrest, if_pos (List.mem_cons_of_mem other hrest)]
    · by_cases heq : other = block
      · rw [if_neg hrest, if_pos heq, if_pos (heq ▸ List.mem_cons_self)]
      · rw [if_neg hrest, if_neg heq, if_neg]
        rintro hmem
        exact (List.mem_cons.mp hmem).elim (fun h => heq h.symm) hrest

section

variable {parent id : UInt32} {k : Fin slotCount} {name : Name} {blank : List UInt32}
  {type : FileType} (h : c.Mounted diskSize)
  (hc : Creates c diskSize parent k name id blank type)

include hc

theorem Creates.slotsBlock_not_mem : (c.disk.inode parent).slotsBlock ∉ id :: blank := by
  intro hmem
  exact (hc.spare _ hmem).unreferred _ (Disk.refers_slotsBlock hc.reachable hc.directory)

theorem Creates.block_after (inode : Inode) (block : UInt32) :
    (c.after (creation c parent k name id blank inode)).disk.block block =
      if block = id then inode.encode
      else if block ∈ blank then Block.zero
      else if block = (c.disk.inode parent).slotsBlock then
        ((c.disk.slots parent).put k (Slot.entry id name)).encode
      else c.disk.block block := by
  have hslots := hc.slotsBlock_not_mem
  have hid := (List.nodup_cons.mp hc.nodup).1
  rw [creation, after_cons, after_cons, block_after_blank, Disk.attached, Effect.storeSlots,
    Effect.change, Effect.change, Disk.block_set, Disk.block_set]
  by_cases heq : block = id
  · subst heq
    rw [if_neg hid, if_pos rfl, if_neg, if_pos rfl]
    intro hsame
    exact hslots (hsame ▸ List.mem_cons_self)
  · rw [if_neg heq]
    split
    · rfl
    · simp only [eq_comm (a := block), Ne.symm heq, if_false]

theorem Creates.inode_after (inode : Inode) :
    (c.after (creation c parent k name id blank inode)).disk.inode id = inode := by
  rw [Disk.inode, hc.block_after, if_pos rfl, Inode.decode_encode]

theorem Creates.store_inode (hsafe : c.Safe diskSize) (inode : Inode) :
    Disk.SameTree c.disk ((Effect.store id inode.encode).change c).disk ∧
      ((Effect.store id inode.encode).change c).Safe diskSize := by
  have hspare := hc.spare id List.mem_cons_self
  have hsame : Disk.SameTree c.disk (c.after [.store id inode.encode]).disk := by
    apply sameTree_after
    intro effect heffect block htarget
    obtain rfl := List.mem_singleton.mp heffect
    obtain rfl := Option.some.inj htarget
    exact hspare.not_structural
  have hwritten : Written c diskSize [.store id inode.encode] := by
    refine hsafe.mounted.written ?_ (hsame.consistent hsafe.mounted.consistent)
    intro effect heffect
    rw [List.mem_singleton.mp heffect]
    exact hsafe.mounted.proper_spare hspare _
  refine ⟨hsame, hwritten.mounted, (hwritten.covers hsafe.covers).mono fun hused => ?_⟩
  exact hsame.inUse_iff.mp hused

variable (permissions now : UInt32) (owner : Owner)

theorem Creates.isFresh : (c.after (creation c parent k name id blank
    (Inode.fresh type permissions owner now blank.head?))).disk.IsFresh id blank := by
  have hid := (List.nodup_cons.mp hc.nodup).1
  have hinode := hc.block_after (Inode.fresh type permissions owner now blank.head?) id
  rw [if_pos rfl] at hinode
  apply Disk.isFresh_new hc.length hinode
  intro block hblock
  rw [hc.block_after, if_neg (by rintro rfl; exact hid hblock), if_pos hblock]

include h

theorem Creates.inserts : Disk.Inserts c.disk (c.after (creation c parent k name id blank
    (Inode.fresh type permissions owner now blank.head?))).disk diskSize parent k name id := by
  have hslots := hc.slotsBlock_not_mem
  have hid := (List.nodup_cons.mp hc.nodup).1
  have hinode := hc.block_after (Inode.fresh type permissions owner now blank.head?) id
  rw [if_pos rfl] at hinode
  refine Disk.inserts_new hc.reachable hc.directory hc.spare hc.nodup hc.length h.high hinode
    ?_ ?_ ?_ hc.component hc.absent hc.unused hc.depth
  · obtain ⟨hne, hmem⟩ := not_or.mp (mt List.mem_cons.mpr hslots)
    rw [hc.block_after, if_neg hne, if_neg hmem, if_pos rfl]
  · intro block hblock
    rw [hc.block_after, if_neg (by rintro rfl; exact hid hblock), if_pos hblock]
  · intro block hblock hne
    obtain ⟨hne', hmem⟩ := not_or.mp (mt List.mem_cons.mpr hblock)
    rw [hc.block_after, if_neg hne', if_neg hmem, if_neg hne]

theorem Creates.written : Written c diskSize (creation c parent k name id blank
    (Inode.fresh type permissions owner now blank.head?)) := by
  refine h.written ?_ ((hc.inserts h permissions now owner).consistent h.consistent)
  intro effect heffect
  rcases List.mem_cons.mp heffect with rfl | heffect
  · exact h.proper_spare (hc.spare id List.mem_cons_self) _
  · rcases List.mem_cons.mp heffect with rfl | heffect
    · exact h.proper_store (Disk.refers_slotsBlock hc.reachable hc.directory) _
    · obtain ⟨block, hblock, rfl⟩ := List.mem_map.mp heffect
      exact h.proper_spare (hc.spare block (List.mem_cons_of_mem id hblock)) _

theorem Creates.inUse_iff (block : UInt32) : (c.after (creation c parent k name id blank
      (Inode.fresh type permissions owner now blank.head?))).disk.InUse block ↔
    c.disk.InUse block ∨ block ∈ id :: blank := by
  rw [(hc.inserts h permissions now owner).inUse_iff h.consistent,
    (hc.isFresh permissions now owner).pointers, List.mem_cons]

end

theorem Safe.of_create (h : c.Safe diskSize) {now permissions : UInt32} {text : String}
    {type : FileType} {owner : Owner} {update : Update UInt32}
    (hplan : (c.volume.create now text permissions type owner).answer c.disk = .ok update) :
    ∃ path name parent k id blank, Path.ofString text = .ok (path ++ [name]) ∧
      c.disk.walk rootId path = .ok parent ∧
      Creates c diskSize parent k name id blank type ∧
      c.volume.bitmap.firstFit reservedBlocks type.blockCount = .ok (id :: blank) ∧
      update = ⟨id, creation c parent k name id blank
        (Inode.fresh type permissions owner now blank.head?) ++ Effect.allocate (id :: blank)⟩ := by
  obtain ⟨path, name, parent, k, id, blank, htext, hwalk, hdirectory, hfind, hunused, hfit, rfl⟩ :=
    h.mounted.of_create hplan
  have hoffers := Bitmap.offers_of_firstFit h.mounted.fits hfit
  have hlength := Path.length_le_of_ofString htext
  rw [List.length_append, List.length_singleton] at hlength
  refine ⟨path, name, parent, k, id, blank, htext, hwalk, ?_, hfit, rfl⟩
  exact {
    reachable := Disk.walk_reachable Disk.reachable_root hwalk
    directory := hdirectory
    absent := hfind
    unused := hunused
    component := Path.isComponent_of_ofString htext (by simp)
    depth := ⟨_, Disk.walk_atDepth .root hwalk, by omega⟩
    length := hoffers.length
    nodup := hoffers.nodup
    spare := h.spare hoffers }

end BlockFS.Content
