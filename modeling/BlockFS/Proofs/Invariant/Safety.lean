import BlockFS.Proofs.Invariant.Formatted

/-!
Safety under faults: whatever reads and writes fail while operations are carried out, every block of
the tree stays marked in memory and on the disk. New files are made without faults. At worst an
operation leaves blocks marked that the tree does not refer to.
-/

set_option autoImplicit false
set_option relaxedAutoImplicit false

namespace BlockFS

namespace Content

variable {c : Content} {diskSize : UInt32}

namespace Safe

variable (h : c.Safe diskSize)

include h

theorem growth {wanted : Nat} {blocks : List UInt32}
    (hoffers : c.volume.bitmap.Offers wanted blocks) :
    Throughout (Safe · diskSize) c (Effect.growth blocks) ∧
      (c.after (Effect.growth blocks)).Covers fun block =>
        c.disk.InUse block ∨ block ∈ blocks := by
  rw [Effect.growth]
  split
  · rename_i hempty
    rw [List.isEmpty_iff.mp hempty]
    exact ⟨throughout_nil h, h.covers.mono fun hused => by simpa using hused⟩
  · have hrange : ∀ id ∈ blocks, id < diskSize := fun id hid => (h.spare hoffers id hid).high
    exact ⟨h.throughout_allocate hrange, h.covers_allocate hrange⟩

theorem throughout_move {effects : List Effect} (hmove : Move c diskSize effects) :
    Throughout (Safe · diskSize) c effects := by
  cases hmove with
  | nothing => exact throughout_nil h
  | @rewrite effect hwritten huse =>
    refine throughout_cons h (throughout_nil ?_)
    exact ⟨hwritten.mounted, (hwritten.covers h.covers).mono fun hused => (huse _).mp hused⟩
  | @release effect blocks hwritten hnodup hrefers huse =>
    have hsafe : (effect.change c).Safe diskSize :=
      ⟨hwritten.mounted, (hwritten.covers h.covers).mono fun hused => ((huse _).mp hused).1⟩
    refine throughout_cons h (hsafe.throughout_deallocate ?_
      fun id hid hused => ((huse id).mp hused).2 hid)
    intro id hid
    obtain ⟨place, hplace⟩ := hrefers id hid
    exact (h.mounted.consistent.bounds h.mounted.low hplace).2
  | @extend id now offset bytes blocks hextends hoffers =>
    obtain ⟨hgrowth, hcovers⟩ := h.growth hoffers
    obtain ⟨hmounted, hsame⟩ := h.mounted.bookkeeping fun _ => Effect.bookkeeping_growth
    have hextends' := hextends.of_sameTree hsame
    rw [← hsame.inode_eq hextends.reachable]
    refine throughout_append hgrowth (throughout_cons ?_ ?_)
    · exact ⟨hmounted, hcovers.mono fun hused => .inl (hsame.inUse_iff.mp hused)⟩
    · intro count
      -- The inode points at blocks that are covered already, and bytes do not change the tree.
      obtain ⟨hdata, hsame'⟩ := hextends'.written_data hmounted now
        fun _ hmem => List.mem_of_mem_take (i := count) hmem
      refine ⟨hdata.mounted, (hdata.covers ((hextends'.written_store hmounted now).covers
        hcovers)).mono fun {block} hused => ?_⟩
      rw [← hsame.inUse_iff, ← hextends'.inUse_iff hmounted now]
      exact hsame'.inUse_iff.mp hused

/-- The effects that make a new file are allowed up to the last, which changes counters only. -/
theorem past_creation {now permissions : UInt32} {text : String} {type : FileType} {owner : Owner}
    {update : Update UInt32}
    (hplan : (c.volume.create now text permissions type owner).answer c.disk = .ok update) :
    ∃ first second, update.effects = first ++ second ∧ Effect.AllAllowed first c ∧
      ∀ count, ((c.after first).after (second.take count)).Safe diskSize := by
  obtain ⟨path, name, parent, k, id, blank, -, -, hcreates, -, rfl⟩ := h.of_create hplan
  have hwritten := hcreates.written h.mounted permissions now owner
  have huse := hcreates.inUse_iff h.mounted permissions now owner
  have hmounted := hwritten.mounted
  have hrange : ∀ block ∈ id :: blank, block < diskSize := fun block hblock =>
    (hcreates.spare block hblock).high
  have hblocks := hrange
  rw [← hmounted.bitmap] at hblocks
  have hbook : ∀ effect ∈ [.mark (id :: blank) true, .saveBitmap], Effect.Bookkeeping effect :=
    fun _ heffect => Effect.bookkeeping_allocate (List.mem_of_mem_take (i := 2) heffect)
  obtain ⟨hmarked, hsame⟩ := hmounted.bookkeeping hbook
  have hcovers := (hwritten.covers h.covers).allocated hmounted.fits hblocks
  have hsafe := Safe.mk hmarked (hcovers.mono fun hused => (huse _).mp (hsame.inUse_iff.mp hused))
  have hallowed : Effect.AllAllowed [.mark (id :: blank) true, .saveBitmap] _ :=
    ⟨hblocks, hmounted.bitmap_lt_size, trivial⟩
  refine ⟨_, [.charge (id :: blank).length],
    (List.append_assoc _ [Effect.mark (id :: blank) true, Effect.saveBitmap] _).symm,
    Effect.allAllowed_append.mpr ⟨hwritten.allowed, hallowed⟩, ?_⟩
  intro count
  rw [after_append]
  cases count with
  | zero =>
    rw [List.take_zero, after_nil]
    exact hsafe
  | succ count =>
    rw [List.take_succ_cons, List.take_nil, after_cons, after_nil]
    exact hsafe.charge _

theorem of_load {volume : Volume}
    (hload : (Volume.load c.disk.size).answer c.disk = .ok volume) :
    (Content.mk c.disk volume).Safe diskSize := by
  obtain ⟨usage, hanswer, -⟩ := h.mounted.load_answer
  obtain rfl := Except.ok.inj (hload.symm.trans hanswer)
  exact ⟨⟨rfl, rfl, h.mounted.low, h.mounted.high, h.mounted.device, h.mounted.stored,
    h.mounted.consistent⟩, h.covers.saved, h.covers.saved⟩

end Safe

/-- What is promised of the blocks of the tree: they lie inside the disk, the tree refers to each of
them once, and they are marked in memory and on the disk. -/
structure LiveBlocksMarked (c : Content) (diskSize : UInt32) : Prop where
  inside : ∀ {place block}, c.disk.Refers place block → block < diskSize
  once : ∀ {place place' block}, c.disk.Refers place block → c.disk.Refers place' block →
    place = place'
  inMemory : ∀ {place block}, c.disk.Refers place block →
    Bitmap.isSet c.volume.bitmap.map block.toNat = true
  onDisk : ∀ {place block}, c.disk.Refers place block →
    Bitmap.isSet (c.disk.block bitmapId) block.toNat = true

theorem Safe.liveBlocksMarked (h : c.Safe diskSize) : c.LiveBlocksMarked diskSize where
  inside hplace := (h.mounted.consistent.bounds h.mounted.low hplace).2
  once := h.mounted.consistent.distinct
  inMemory hplace := h.covers.marked (Disk.inUse_of_refers hplace)
  onDisk hplace := h.covers.saved (Disk.inUse_of_refers hplace)

end Content

namespace FileSystem

/-- A call keeps a safe file system safe, whatever fails, unless it makes a file. -/
theorem safe_after (fs : FileSystem) {diskSize : UInt32} (h : fs.content.Safe diskSize)
    (now : UInt32) {request : Request} (hcreate : ¬ request.IsCreate) :
    (fs.after now request).content.Safe diskSize := by
  by_cases hremount : request = .remount
  · subst hremount
    obtain ⟨-, hcontent | ⟨volume, hload, hcontent⟩⟩ := after_remount fs now
    · rwa [hcontent]
    · rw [hcontent]
      exact h.of_load hload
  · obtain ⟨-, hcontent | ⟨effects, hplan, hends⟩⟩ := after_ends h.mounted.fits now hremount
    · rwa [hcontent]
    · obtain ⟨count, hcontent⟩ := hends.exists_take
      rw [hcontent]
      exact h.throughout_move (h.move_request hcreate hplan) count

theorem safe_after_create (fs : FileSystem) {diskSize : UInt32} (h : fs.content.Safe diskSize)
    (hfaults : fs.device.faults = Faults.none) (now : UInt32) {request : Request}
    (hcreate : request.IsCreate) : (fs.after now request).content.Safe diskSize := by
  cases request with
  | create path permissions type owner =>
    have hrequest : Request.create path permissions type owner ≠ .remount := nofun
    obtain ⟨-, hcontent | ⟨effects, hplan, hends⟩⟩ := after_ends h.mounted.fits now hrequest
    · rwa [hcontent]
    · obtain ⟨update, hupdate, rfl⟩ := Query.answer_map_eq_ok.mp hplan
      obtain ⟨first, second, hsplit, hallowed, hsafe⟩ := h.past_creation hupdate
      rw [hsplit, hfaults] at hends
      obtain ⟨count, hcontent⟩ :=
        (hends.past (fun effect _ => effect.served_none) hallowed).exists_take
      rw [hcontent]
      exact hsafe count
  | _ => exact hcreate.elim

end FileSystem

end BlockFS
