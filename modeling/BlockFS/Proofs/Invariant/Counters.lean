import BlockFS.Proofs.Invariant.Safety

/-!
The counters under faults. A call marks blocks in memory, then writes the bitmap, and only then
adjusts the counters. So the counters agree with the bitmap in memory after every call, failed or
not, as long as no write of the bitmap fails. A call that cannot write it leaves the marks in memory
and the counters as they were: after a failed removal fewer blocks are counted as free than are
clear, and a later call that takes them finds the counter too low.
-/

set_option autoImplicit false
set_option relaxedAutoImplicit false

namespace BlockFS

def Faults.SpareBitmap (faults : Faults) : Prop :=
  ∀ accesses completed, faults.write accesses completed bitmapId = false

theorem Effect.served_allocate {faults : Faults} (hbitmap : faults.SpareBitmap)
    {blocks : List UInt32} {effect : Effect} (h : effect ∈ Effect.allocate blocks) :
    effect.Served faults := by
  simp only [allocate, List.mem_cons, List.not_mem_nil, or_false] at h
  rcases h with rfl | rfl | rfl
  · trivial
  · exact hbitmap
  · trivial

theorem Effect.served_release {faults : Faults} (hbitmap : faults.SpareBitmap)
    {blocks : List UInt32} {effect : Effect}
    (h : effect ∈ [.mark blocks false, .saveBitmap, .credit blocks.length]) :
    effect.Served faults := by
  simp only [List.mem_cons, List.not_mem_nil, or_false] at h
  rcases h with rfl | rfl | rfl
  · trivial
  · exact hbitmap
  · trivial

/-- If a call makes a directory, the block that it is given for its slots can be written. -/
def Faults.SpareBlank (faults : Faults) (v : Volume) : Request → Prop
  | .create _ _ .directory _ => ∀ id block,
      v.bitmap.firstFit reservedBlocks FileType.directory.blockCount = .ok [id, block] →
        ∀ accesses completed, faults.write accesses completed block = false
  | _ => True

namespace Content

variable {faults : Faults} {c c' : Content} {diskSize : UInt32} {effects : List Effect}

theorem Ends.volume_eq (h : Ends faults c effects c')
    (hwrites : ∀ effect ∈ effects, effect.IsWrite) :
    c'.volume = c.volume := by
  obtain ⟨count, rfl⟩ := h.exists_take
  exact volume_after fun effect heffect => hwrites effect (List.mem_of_mem_take heffect)

namespace Counted

variable (h : c.Counted)

include h

theorem of_volume (hvolume : c'.volume = c.volume) : c'.Counted := by
  rw [Counted, hvolume]
  exact h

variable (hmounted : c.Mounted diskSize) (hbitmap : faults.SpareBitmap) {blocks : List UInt32}

include hmounted hbitmap

theorem of_allocate {wanted : Nat} (hoffers : c.volume.bitmap.Offers wanted blocks)
    (hends : Ends faults c (Effect.allocate blocks) c') : c'.Counted := by
  obtain ⟨hallowed, usage, hcounts, hafter⟩ :=
    allocate hmounted.fits hmounted.bitmap_lt_size h hoffers
  rw [hends.eq_after (fun _ => Effect.served_allocate hbitmap) hallowed, hafter]
  exact hcounts

theorem of_growth {wanted : Nat} (hoffers : c.volume.bitmap.Offers wanted blocks)
    (hends : Ends faults c (Effect.growth blocks) c') : c'.Counted := by
  rw [Effect.growth] at hends
  split at hends
  · cases hends
    exact h
  · exact h.of_allocate hmounted hbitmap hoffers hends

theorem of_deallocate (hnodup : blocks.Nodup) (hblocks : ∀ id ∈ blocks, reservedBlocks ≤ id ∧
      id < c.volume.bitmap.blocks ∧ Bitmap.isSet c.volume.bitmap.map id.toNat = true)
    (hends : Ends faults c (Effect.deallocate blocks) c') : c'.Counted := by
  rw [Effect.deallocate] at hends
  split at hends
  · cases hends
    exact h
  · obtain ⟨hallowed, usage, hcounts, hafter⟩ :=
      release hmounted.fits hmounted.bitmap_lt_size h hnodup hblocks
    rw [hends.eq_after (fun _ => Effect.served_release hbitmap) hallowed, hafter]
    exact hcounts

end Counted

namespace Safe

variable (h : c.Safe diskSize) (hcounted : c.Counted)

include h hcounted

theorem counted_move (hbitmap : faults.SpareBitmap) (hmove : Move c diskSize effects)
    (hends : Ends faults c effects c') : c'.Counted := by
  cases hmove with
  | nothing =>
    cases hends
    exact hcounted
  | rewrite hwritten huse =>
    cases hends with
    | stop => exact hcounted
    | next hnext =>
      cases hnext
      exact hcounted.of_volume hwritten.volume
  | @release effect blocks hwritten hnodup hrefers huse =>
    cases hends with
    | stop => exact hcounted
    | next hnext =>
      -- The blocks are marked still, since the tree refers to them up to this write.
      have hvolume : (effect.change c).volume = c.volume := hwritten.volume
      refine (hcounted.of_volume hvolume).of_deallocate hwritten.mounted hbitmap hnodup ?_ hnext
      intro id hid
      obtain ⟨place, hplace⟩ := hrefers id hid
      obtain ⟨hlow, hhigh⟩ := h.mounted.consistent.bounds h.mounted.low hplace
      rw [hvolume, h.mounted.bitmap]
      exact ⟨UInt32.le_trans (by decide) hlow, hhigh,
        h.covers.marked (Disk.inUse_of_refers hplace)⟩
  | @extend id now offset bytes blocks hextends hoffers =>
    rcases hends.of_append with hgrowth | hwrites
    · exact hcounted.of_growth h.mounted hbitmap hoffers hgrowth
    · have hgrown := hcounted.of_growth h.mounted hbitmap hoffers (ends_after faults c _)
      refine hgrown.of_volume (hwrites.volume_eq fun effect heffect => ?_)
      rcases List.mem_cons.mp heffect with rfl | heffect
      · trivial
      · obtain ⟨index, -, rfl⟩ := List.mem_map.mp heffect
        trivial

omit h hcounted in
theorem served_blank {text : String} {permissions : UInt32} {type : FileType} {owner : Owner}
    {id : UInt32} {blank : List UInt32}
    (hblank : faults.SpareBlank c.volume (.create text permissions type owner))
    (hlength : (id :: blank).length = type.blockCount)
    (hfit : c.volume.bitmap.firstFit reservedBlocks type.blockCount = .ok (id :: blank))
    {effect : Effect} (heffect : effect ∈ blank.map fun block => Effect.store block Block.zero) :
    effect.Served faults := by
  obtain ⟨block, hblock, rfl⟩ := List.mem_map.mp heffect
  cases type with
  | regular =>
    obtain rfl : blank = [] := List.length_eq_zero_iff.mp (Nat.succ.inj hlength)
    cases hblock
  | directory =>
    obtain ⟨slots, rfl⟩ : ∃ slots, blank = [slots] :=
      List.length_eq_one_iff.mp (Nat.succ.inj hlength)
    obtain rfl := List.mem_singleton.mp hblock
    exact hblank id block hfit

/-- A create that fails at the inode or at the slot has counted nothing. Past the slot it fails only
where the blank slots or the bitmap cannot be written. -/
theorem counted_create (hbitmap : faults.SpareBitmap) {now permissions : UInt32} {text : String}
    {type : FileType} {owner : Owner} {update : Update UInt32}
    (hblank : faults.SpareBlank c.volume (.create text permissions type owner))
    (hplan : (c.volume.create now text permissions type owner).answer c.disk = .ok update)
    (hends : Ends faults c update.effects c') : c'.Safe diskSize ∧ c'.Counted := by
  obtain ⟨first, second, hsplit, -, hsafe⟩ := h.past_creation hplan
  obtain ⟨path, name, parent, k, id, blank, -, -, hcreates, hfit, rfl⟩ := h.of_create hplan
  have hwritten := hcreates.written h.mounted permissions now owner
  have hcounted' := hcounted.of_volume hwritten.volume
  have hoffers := Bitmap.offers_of_firstFit h.mounted.fits hfit
  rw [← hwritten.volume] at hoffers
  cases hends with
  | stop => exact ⟨h, hcounted⟩
  | next hends =>
    cases hends with
    | stop => exact ⟨(hcreates.store_inode h _).2, hcounted⟩
    | next hends =>
      have hserved : ∀ effect ∈ blank.map fun block => Effect.store block Block.zero,
          effect.Served faults := fun _ => served_blank hblank hcreates.length hfit
      have hpast := hends.past hserved hwritten.allowed.2.2
      rw [← after_cons, ← after_cons] at hpast
      obtain ⟨hallowed, -⟩ := Counted.allocate hwritten.mounted.fits
        hwritten.mounted.bitmap_lt_size hcounted' hoffers
      have hall := hpast.eq_after (fun _ => Effect.served_allocate hbitmap) hallowed
      refine ⟨?_, hcounted'.of_allocate hwritten.mounted hbitmap hoffers hpast⟩
      have hend := hsafe second.length
      rw [List.take_length, ← after_append, ← hsplit, after_append] at hend
      rw [hall]
      exact hend

omit h in
theorem charge_allocate (hmounted : c.Mounted diskSize) {wanted count : Nat} {blocks : List UInt32}
    (hoffers : c.volume.bitmap.Offers wanted blocks)
    (hmem : Effect.charge count ∈ Effect.allocate blocks) :
    ∃ usage, c.volume.usage.charge count = .ok usage := by
  obtain ⟨⟨-, -, hcharge, -⟩, -⟩ :=
    Counted.allocate hmounted.fits hmounted.bitmap_lt_size hcounted hoffers
  simp only [Effect.allocate, List.mem_cons, reduceCtorEq, List.not_mem_nil, or_false, false_or,
    Effect.charge.injEq] at hmem
  rw [hmem]
  exact hcharge

theorem charge_move (hmove : Move c diskSize effects) {count : Nat}
    (hmem : Effect.charge count ∈ effects) :
    ∃ usage, c.volume.usage.charge count = .ok usage := by
  cases hmove with
  | nothing => cases hmem
  | rewrite hwritten huse =>
    rw [← List.mem_singleton.mp hmem] at hwritten
    exact hwritten.allowed.1
  | release hwritten hnodup hrefers huse =>
    rcases List.mem_cons.mp hmem with heq | hmem
    · rw [← heq] at hwritten
      exact hwritten.allowed.1
    · rw [Effect.deallocate] at hmem
      split at hmem <;> simp at hmem
  | extend hextends hoffers =>
    rcases List.mem_append.mp hmem with hmem | hmem
    · rw [Effect.growth] at hmem
      split at hmem
      · cases hmem
      · exact charge_allocate hcounted h.mounted hoffers hmem
    · rcases List.mem_cons.mp hmem with heq | hmem
      · cases heq
      · obtain ⟨index, -, heq⟩ := List.mem_map.mp hmem
        cases heq

theorem charge_request {now : UInt32} {request : Request} {count : Nat}
    (hplan : (request.effects c.volume now).answer c.disk = .ok effects)
    (hmem : Effect.charge count ∈ effects) :
    ∃ usage, c.volume.usage.charge count = .ok usage := by
  by_cases hcreate : request.IsCreate
  · cases request with
    | create path permissions type owner =>
      obtain ⟨update, hupdate, rfl⟩ := Query.answer_map_eq_ok.mp hplan
      obtain ⟨_, _, _, _, id, blank, -, -, hcreates, hfit, rfl⟩ := h.of_create hupdate
      have hoffers := Bitmap.offers_of_firstFit h.mounted.fits hfit
      rcases List.mem_append.mp hmem with hmem | hmem
      · simp [creation, Disk.attached, Effect.storeSlots] at hmem
      · exact charge_allocate hcounted h.mounted hoffers hmem
    | _ => exact hcreate.elim
  · exact h.charge_move hcounted (h.move_request hcreate hplan) hmem

end Safe

/-- What is promised of the counters: they count the usable blocks and the clear bits among them, so
the used blocks can be told, and there are as many free ones as a call takes. -/
structure Balanced (c : Content) (diskSize : UInt32) : Prop where
  blocks : c.volume.bitmap.blocks = diskSize
  total : c.volume.usage.total.toNat = diskSize.toNat - reservedBlocks.toNat
  free : c.volume.usage.free.toNat = (c.volume.bitmap.clear reservedBlocks.toNat).length
  free_le : c.volume.usage.free ≤ c.volume.usage.total
  used : c.volume.usage.used? = some (c.volume.usage.total - c.volume.usage.free)
  charge : ∀ {now request effects count},
    (Request.effects c.volume now request).answer c.disk = .ok effects →
      .charge count ∈ effects → ∃ usage, c.volume.usage.charge count = .ok usage

theorem Safe.balanced (h : c.Safe diskSize) (hcounted : c.Counted) : c.Balanced diskSize := by
  have htotal := hcounted.total
  have hfree := hcounted.free
  have hle := c.volume.bitmap.length_clear_le reservedBlocks.toNat
  rw [← hfree, ← htotal] at hle
  refine ⟨h.mounted.bitmap, ?_, hfree, UInt32.le_iff_toNat_le.mpr hle, ?_,
    fun hplan hmem => h.charge_request hcounted hplan hmem⟩
  · rw [htotal, h.mounted.bitmap]
  · rw [Usage.used?, if_neg]
    rw [UInt32.not_lt]
    exact UInt32.le_iff_toNat_le.mpr hle

theorem Safe.counted_load (h : c.Safe diskSize) {volume : Volume}
    (hload : (Volume.load c.disk.size).answer c.disk = .ok volume) :
    (Content.mk c.disk volume).Counted := by
  obtain ⟨usage, hanswer, hcounts⟩ := h.mounted.load_answer
  obtain rfl := Except.ok.inj (hload.symm.trans hanswer)
  exact hcounts

end Content

namespace FileSystem

/-- A call keeps a file system safe and its counters in agreement with the bitmap. -/
theorem counted_after (fs : FileSystem) {diskSize : UInt32} (h : fs.content.Safe diskSize)
    (hcounted : fs.content.Counted) (hbitmap : fs.device.faults.SpareBitmap) (now : UInt32)
    {request : Request} (hblank : fs.device.faults.SpareBlank fs.volume request) :
    (fs.after now request).content.Safe diskSize ∧ (fs.after now request).content.Counted := by
  by_cases hremount : request = .remount
  · subst hremount
    obtain ⟨-, hcontent | ⟨volume, hload, hcontent⟩⟩ := after_remount fs now
    · rw [hcontent]
      exact ⟨h, hcounted⟩
    · rw [hcontent]
      exact ⟨h.of_load hload, h.counted_load hload⟩
  obtain ⟨-, hcontent | ⟨effects, hplan, hends⟩⟩ := after_ends h.mounted.fits now hremount
  · rw [hcontent]
    exact ⟨h, hcounted⟩
  by_cases hmakes : request.IsCreate
  · cases request with
    | create path permissions type owner =>
      obtain ⟨update, hupdate, rfl⟩ := Query.answer_map_eq_ok.mp hplan
      exact h.counted_create hcounted hbitmap hblank hupdate hends
    | _ => exact hmakes.elim
  · have hmove := h.move_request hmakes hplan
    refine ⟨?_, h.counted_move hcounted hbitmap hmove hends⟩
    obtain ⟨count, hcontent⟩ := hends.exists_take
    rw [hcontent]
    exact h.throughout_move hmove count

end FileSystem

end BlockFS
