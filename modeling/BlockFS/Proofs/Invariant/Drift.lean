import BlockFS.Proofs.Invariant.Calls
import BlockFS.Proofs.Invariant.Counters

/-!
How the counters drift. Every call that takes blocks or gives them back marks them in memory before
it writes the bitmap, and adjusts the counters after that. So if the bitmap cannot be written the
call fails between the two, and from then on the counters disagree with the bitmap in memory. When
they count too few free blocks, a call that takes more than that overflows.
-/

set_option autoImplicit false
set_option relaxedAutoImplicit false

namespace BlockFS

namespace Content

variable {c : Content} {diskSize : UInt32} {effects : List Effect}

/-- Before the bitmap is written, effects have changed its bits in memory and not the counters. -/
def Drifts (c : Content) (effects : List Effect) : Prop :=
  ∃ first rest, effects = first ++ .saveBitmap :: rest ∧
    (∀ effect ∈ first, effect.target ≠ some bitmapId) ∧ Effect.AllAllowed first c ∧
    (c.after first).volume.usage = c.volume.usage ∧
    c.volume.usage.free.toNat ≠
      ((c.after first).volume.bitmap.clear reservedBlocks.toNat).length

theorem Drifts.append {first second : List Effect} (h : Drifts c first) :
    Drifts c (first ++ second) := by
  obtain ⟨before, rest, rfl, hothers, hallowed, husage, hclear⟩ := h
  refine ⟨before, rest ++ second, ?_, hothers, hallowed, husage, hclear⟩
  rw [List.append_assoc, List.cons_append]

theorem Drifts.behind {first second : List Effect} (hwritten : Written c diskSize first)
    (h : Drifts (c.after first) second) : Drifts c (first ++ second) := by
  obtain ⟨before, rest, rfl, hothers, hallowed, husage, hclear⟩ := h
  refine ⟨first ++ before, rest, ?_, ?_, ?_, ?_, ?_⟩
  · rw [List.append_assoc]
  · intro effect heffect
    exact (List.mem_append.mp heffect).elim (hwritten.target effect) (hothers effect)
  · exact Effect.allAllowed_append.mpr ⟨hwritten.allowed, hallowed⟩
  · rw [after_append, husage, hwritten.volume]
  · rw [after_append]
    rwa [hwritten.volume] at hclear

theorem Counted.drifts_allocate (h : c.Counted) (hmounted : c.Mounted diskSize) {wanted : Nat}
    {blocks : List UInt32} (hoffers : c.volume.bitmap.Offers wanted blocks) (hne : blocks ≠ []) :
    Drifts c (Effect.allocate blocks) := by
  have hfree := h.free
  have hclear := Bitmap.length_clear_allocated hmounted.fits hoffers.nodup hoffers.clear
  have hlength := List.length_pos_iff.mpr hne
  refine ⟨[.mark blocks true], [.charge blocks.length], rfl, Effect.target_ne_of_mark _,
    ⟨?_, trivial⟩, rfl, ?_⟩
  · intro id hid
    exact UInt32.lt_iff_toNat_lt.mpr (Bitmap.mem_clear.mp (hoffers.clear id hid)).2.1
  · show c.volume.usage.free.toNat ≠
      ((c.volume.bitmap.marked blocks true).clear reservedBlocks.toNat).length
    omega

theorem Counted.drifts_deallocate (h : c.Counted) (hmounted : c.Mounted diskSize)
    {blocks : List UInt32} (hnodup : blocks.Nodup) (hblocks : ∀ id ∈ blocks, reservedBlocks ≤ id ∧
      id < c.volume.bitmap.blocks ∧ Bitmap.isSet c.volume.bitmap.map id.toNat = true)
    (hne : blocks ≠ []) : Drifts c (Effect.deallocate blocks) := by
  have hfree := h.free
  have hmarked : ∀ id ∈ blocks, reservedBlocks.toNat ≤ id.toNat ∧ id < c.volume.bitmap.blocks ∧
      Bitmap.isSet c.volume.bitmap.map id.toNat = true := fun id hid =>
    ⟨UInt32.le_iff_toNat_le.mp (hblocks id hid).1, (hblocks id hid).2⟩
  have hclear := Bitmap.length_clear_released hmounted.fits hnodup hmarked
  have hlength := List.length_pos_iff.mpr hne
  rw [Effect.deallocate, if_neg (mt List.isEmpty_iff.mp hne)]
  refine ⟨[.mark blocks false], [.credit blocks.length], rfl, Effect.target_ne_of_mark _,
    ⟨?_, trivial⟩, rfl, ?_⟩
  · exact fun id hid => (hblocks id hid).2.1
  · show c.volume.usage.free.toNat ≠
      ((c.volume.bitmap.marked blocks false).clear reservedBlocks.toNat).length
    omega

namespace Safe

variable (h : c.Safe diskSize) (hcounted : c.Counted)

include h hcounted

theorem drifts_move (hmove : Move c diskSize effects) (hsaves : Effect.saveBitmap ∈ effects) :
    Drifts c effects := by
  cases hmove with
  | nothing => cases hsaves
  | rewrite hwritten huse => exact absurd rfl (hwritten.target _ hsaves)
  | @release effect blocks hwritten hnodup hrefers huse =>
    have hsaves' : Effect.saveBitmap ∈ Effect.deallocate blocks := by
      rcases List.mem_cons.mp hsaves with rfl | hsaves
      · exact absurd rfl (hwritten.target _ List.mem_cons_self)
      · exact hsaves
    refine Drifts.behind hwritten ((hcounted.of_volume hwritten.volume).drifts_deallocate
      hwritten.mounted hnodup (fun id hid => ?_) ?_)
    · obtain ⟨place, hplace⟩ := hrefers id hid
      obtain ⟨hlow, hhigh⟩ := h.mounted.consistent.bounds h.mounted.low hplace
      rw [hwritten.volume, h.mounted.bitmap]
      exact ⟨UInt32.le_trans (by decide) hlow, hhigh,
        h.covers.marked (Disk.inUse_of_refers hplace)⟩
    · rintro rfl
      cases hsaves'
  | @extend id now offset bytes blocks hextends hoffers =>
    have hsaves' : Effect.saveBitmap ∈ Effect.growth blocks := by
      rcases List.mem_append.mp hsaves with hsaves | hsaves
      · exact hsaves
      · rcases List.mem_cons.mp hsaves with heq | hsaves
        · cases heq
        · obtain ⟨index, -, heq⟩ := List.mem_map.mp hsaves
          cases heq
    rw [Effect.growth] at hsaves' ⊢
    split at hsaves' <;> rename_i hempty
    · cases hsaves'
    · rw [if_neg hempty]
      exact (hcounted.drifts_allocate h.mounted hoffers (mt List.isEmpty_iff.mpr hempty)).append

/-- Every call that is to write the bitmap has changed its bits before, and not the counters. -/
theorem drifts_request {now : UInt32} {request : Request}
    (hplan : (request.effects c.volume now).answer c.disk = .ok effects)
    (hsaves : Effect.saveBitmap ∈ effects) : Drifts c effects := by
  by_cases hcreate : request.IsCreate
  · cases request with
    | create path permissions type owner =>
      obtain ⟨update, hupdate, rfl⟩ := Query.answer_map_eq_ok.mp hplan
      obtain ⟨_, _, _, _, id, blank, -, -, hcreates, hfit, rfl⟩ := h.of_create hupdate
      have hoffers := Bitmap.offers_of_firstFit h.mounted.fits hfit
      have hwritten := hcreates.written h.mounted permissions now owner
      rw [← hwritten.volume] at hoffers
      exact Drifts.behind hwritten ((hcounted.of_volume hwritten.volume).drifts_allocate
        hwritten.mounted hoffers (List.cons_ne_nil id blank))
    | _ => exact hcreate.elim
  · exact h.drifts_move hcounted (h.move_request hcreate hplan) hsaves

end Safe

theorem Mounted.allowed_detach (h : c.Mounted diskSize) {parent child : UInt32} {k : Fin slotCount}
    (hparent : c.disk.Reachable parent) (hlink : c.disk.Links parent k child)
    (hleaf : ∀ j other, ¬ c.disk.Links child j other) {blocks : List UInt32}
    (hblocks : ∀ block ∈ blocks, block < diskSize)
    (hroom : c.volume.usage.free.toNat + blocks.length < UInt32.size) :
    Effect.AllAllowed (c.disk.detached parent k :: Effect.deallocate blocks) c := by
  have hwritten := h.written_detached hparent hlink hleaf
  refine ⟨hwritten.allowed.1, ?_⟩
  rw [Effect.deallocate]
  split
  · trivial
  · refine ⟨fun block hblock => ?_, hwritten.mounted.bitmap_lt_size, ?_, trivial⟩
    · rw [show ((c.disk.detached parent k).change c).volume.bitmap.blocks = diskSize from
        hwritten.mounted.bitmap]
      exact hblocks block hblock
    · exact ⟨_, if_neg (Nat.not_le.mpr hroom)⟩

section

variable {parent id block : UInt32} {k : Fin slotCount} {name : Name} (h : c.Mounted diskSize)
  (hc : Creates c diskSize parent k name id [block] .directory)
  (hzero : c.disk.block block = Block.zero)

include hc

theorem Creates.target_ne_blank (inode : Inode) :
    ∀ effect ∈ c.linking parent k name id inode, effect.target ≠ some block := by
  intro effect heffect htarget
  simp only [linking, List.mem_cons, List.not_mem_nil, or_false] at heffect
  rcases heffect with rfl | rfl
  · exact (List.nodup_cons.mp hc.nodup).1 (List.mem_singleton.mpr (Option.some.inj htarget))
  · refine hc.slotsBlock_not_mem (List.mem_cons_of_mem id ?_)
    exact List.mem_singleton.mpr (Option.some.inj htarget)

include hzero

/-- Where the block for the slots of a new directory holds zeros, blanking it changes nothing. -/
theorem Creates.block_unblanked (inode : Inode) (other : UInt32) :
    (c.after (c.linking parent k name id inode)).disk.block other =
      (c.after (creation c parent k name id [block] inode)).disk.block other := by
  have hkept : (c.after (c.linking parent k name id inode)).disk.block block = Block.zero :=
    (Content.block_after (hc.target_ne_blank inode)).trans hzero
  show _ = ((c.after (c.linking parent k name id inode)).disk.set block Block.zero).block other
  rw [Disk.block_set]
  split
  · rename_i heq
    rw [← heq, hkept]
  · rfl

theorem Creates.directory_unblanked (permissions now : UInt32) (owner : Owner) {d : Disk}
    (hd : d = (c.after (c.linking parent k name id
      (Inode.fresh .directory permissions owner now block))).disk) :
    (d.inode id).isDirectory = true ∧ (∀ j, ((d.slots id).get j).used = false) ∧
      d.released id = [id, block] := by
  obtain ⟨-, hdirectory, hslots⟩ := Inode.fresh_directory permissions owner now block
  have hinode : d.inode id = Inode.fresh .directory permissions owner now block := by
    rw [hd, Disk.inode, hc.block_unblanked hzero, ← Disk.inode, hc.inode_after]
  have hblank : d.block block = Block.zero := by
    rw [hd]
    exact (Content.block_after (hc.target_ne_blank _)).trans hzero
  rw [← hinode] at hdirectory hslots
  refine ⟨hdirectory, fun j => ?_, ?_⟩
  · rw [Disk.slots, hslots, hblank, Directory.decode_zero, Directory.get_empty]
    rfl
  · rw [Disk.released_directory hdirectory, hslots]

include h

theorem Creates.written_unblanked (permissions now : UInt32) (owner : Owner) :
    Written c diskSize (c.linking parent k name id
      (Inode.fresh .directory permissions owner now block)) := by
  refine h.written ?_ ?_
  · intro effect heffect
    simp only [linking, List.mem_cons, List.not_mem_nil, or_false] at heffect
    rcases heffect with rfl | rfl
    · exact h.proper_spare (hc.spare id List.mem_cons_self) _
    · exact h.proper_store (Disk.refers_slotsBlock hc.reachable hc.directory) _
  · refine Disk.SameTree.consistent (fun _ => hc.block_unblanked hzero _ _)
      ((hc.inserts h permissions now owner).consistent h.consistent)

end

end Content

namespace FileSystem

variable {fs : FileSystem} {diskSize now : UInt32}

theorem create_overflows (hsafe : fs.content.Safe diskSize)
    (hfaults : fs.device.faults = Faults.none) {text : String} {permissions : UInt32}
    {type : FileType} {owner : Owner} {update : Update UInt32}
    (hplan : (fs.volume.create now text permissions type owner).answer fs.device.disk = .ok update)
    (hfree : fs.volume.usage.free.toNat < type.blockCount) :
    ∃ failed, perform now (.create text permissions type owner) fs = .error .overflow failed := by
  obtain ⟨path, name, parent, k, id, blank, -, -, hcreates, -, rfl⟩ := hsafe.of_create hplan
  have hwritten := hcreates.written hsafe.mounted permissions now owner
  have hallowed : Effect.AllAllowed (Content.creation fs.content parent k name id blank
      (Inode.fresh type permissions owner now blank.head?) ++
        [.mark (id :: blank) true, .saveBitmap]) fs.content := by
    refine Effect.allAllowed_append.mpr ⟨hwritten.allowed, fun block hblock => ?_,
      hwritten.mounted.bitmap_lt_size, trivial⟩
    rw [hwritten.mounted.bitmap]
    exact (hcreates.spare block hblock).high
  have hfailing : (Effect.charge (id :: blank).length).Fails fs.device.faults
      (fs.content.after (Content.creation fs.content parent k name id blank
        (Inode.fresh type permissions owner now blank.head?) ++
          [.mark (id :: blank) true, .saveBitmap])) .overflow := by
    rw [Effect.Fails, Content.after_append, Content.after_cons, Content.after_cons,
      Content.after_nil, Effect.change, Effect.change, hwritten.volume, hcreates.length]
    exact if_pos hfree
  have hread : ∀ accesses id, fs.device.faults.read accesses id = false := by
    simp [hfaults, Faults.none]
  have hsplit : Content.creation fs.content parent k name id blank
        (Inode.fresh type permissions owner now blank.head?) ++ Effect.allocate (id :: blank) =
      (Content.creation fs.content parent k name id blank
        (Inode.fresh type permissions owner now blank.head?) ++
          [.mark (id :: blank) true, .saveBitmap]) ++ .charge (id :: blank).length :: [] := by
    rw [List.append_assoc]
    rfl
  obtain ⟨failed, hfailed, -⟩ := perform_of_failing
    (transacts_create now text permissions type owner) hsafe.mounted.fits hread hplan hsplit
    (fun effect _ => hfaults ▸ effect.served_none) hallowed hfailing
  exact ⟨failed, hfailed⟩

end FileSystem

end BlockFS
