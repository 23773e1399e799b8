import BlockFS.Proofs.Operation.Target
import BlockFS.Proofs.Volume.Answers
import BlockFS.Proofs.Volume.Transitions

/-!
Invariants of what is on the disk and in memory. A content is `Sound` when it is mounted and the
bitmaps and counters agree exactly with the blocks in use, and `Safe` when at least the blocks in
use are marked. This module says what keeps either of them; the modules beside it go through the
operations.
-/

set_option autoImplicit false
set_option relaxedAutoImplicit false

namespace BlockFS

namespace Content

/-- The bits that are set are those of the blocks in use, and the counters agree. -/
structure Sound (c : Content) (diskSize : UInt32) : Prop where
  mounted : c.Mounted diskSize
  tracks : c.Tracks c.disk.InUse

/-- The bits of the blocks in use are set. -/
structure Safe (c : Content) (diskSize : UInt32) : Prop where
  mounted : c.Mounted diskSize
  covers : c.Covers c.disk.InUse

variable {c : Content} {diskSize : UInt32} {effects : List Effect}

theorem Sound.safe (h : c.Sound diskSize) : c.Safe diskSize := ⟨h.mounted, h.tracks.covers⟩

/-! ### Running effects -/

/-- A property holds before and after each of a list of effects. -/
def Throughout (p : Content → Prop) (c : Content) (effects : List Effect) : Prop :=
  ∀ count, p (c.after (effects.take count))

theorem throughout_nil {p : Content → Prop} (h : p c) : Throughout p c [] := by
  intro count
  rwa [List.take_nil]

theorem throughout_cons {p : Content → Prop} {effect : Effect} {rest : List Effect} (h : p c)
    (hrest : Throughout p (effect.change c) rest) : Throughout p c (effect :: rest) := by
  intro count
  cases count with
  | zero => exact h
  | succ count => exact hrest count

theorem throughout_append {p : Content → Prop} {first second : List Effect}
    (hfirst : Throughout p c first) (hsecond : Throughout p (c.after first) second) :
    Throughout p c (first ++ second) := by
  intro count
  rw [List.take_append]
  by_cases hcount : count ≤ first.length
  · rw [Nat.sub_eq_zero_of_le hcount, List.take_zero, List.append_nil]
    exact hfirst count
  · rw [List.take_of_length_le (by omega), after_append]
    exact hsecond _

namespace Mounted

variable (h : c.Mounted diskSize)

include h

theorem after (hsuper : ∀ effect ∈ effects, effect.target ≠ some superblockId)
    (hconsistent : (c.after effects).disk.Consistent diskSize) :
    (c.after effects).Mounted diskSize where
  superblock := (superblock_after c effects).trans h.superblock
  bitmap := (blocks_after h.fits effects).trans h.bitmap
  low := h.low
  high := h.high
  device := by
    rw [size_after]
    exact h.device
  stored := by
    rw [block_after hsuper]
    exact h.stored
  consistent := hconsistent

theorem bitmap_lt_size : bitmapId.toNat < c.disk.size :=
  h.lt_size (UInt32.lt_of_lt_of_le (by decide) h.low)

theorem not_structural {block : UInt32} (hblock : block = superblockId ∨ block = bitmapId) :
    ¬ c.disk.Structural block := by
  intro hstructural
  obtain ⟨place, hplace⟩ := hstructural.referred
  have hne := h.consistent.ne_reserved h.low hplace
  exact hblock.elim hne.1 hne.2

theorem ne_bitmap {block : UInt32} (hblock : c.disk.Structural block) : block ≠ bitmapId := by
  rintro rfl
  exact h.not_structural (.inr rfl) hblock

theorem bookkeeping (hbook : ∀ effect ∈ effects, effect.Bookkeeping) :
    (c.after effects).Mounted diskSize ∧ Disk.SameTree c.disk (c.after effects).disk := by
  have hsame : Disk.SameTree c.disk (c.after effects).disk := by
    apply sameTree_after
    intro effect heffect block htarget
    exact h.not_structural (.inr (hbook effect heffect block htarget))
  refine ⟨h.after ?_ (hsame.consistent h.consistent), hsame⟩
  intro effect heffect htarget
  exact absurd (hbook effect heffect _ htarget) (by decide)

end Mounted

/-! ### Soundness -/

theorem Mounted.sound_deallocate (h : c.Mounted diskSize) {used : UInt32 → Prop}
    (htracks : c.Tracks used) {blocks : List UInt32} (hnodup : blocks.Nodup)
    (hblocks : ∀ id ∈ blocks, reservedBlocks ≤ id ∧ id < diskSize ∧ used id)
    (huse : ∀ block, c.disk.InUse block ↔ used block ∧ block ∉ blocks) :
    Effect.AllAllowed (Effect.deallocate blocks) c ∧
      (c.after (Effect.deallocate blocks)).Sound diskSize := by
  obtain ⟨hallowed, htracks'⟩ := htracks.deallocate h.fits h.bitmap_lt_size hnodup
    (by rwa [h.bitmap])
  obtain ⟨hmounted, hsame⟩ := h.bookkeeping fun _ => Effect.bookkeeping_deallocate
  exact ⟨hallowed, hmounted, htracks'.congr fun block => hsame.inUse_iff.trans (huse block)⟩

theorem Mounted.sound_allocate (h : c.Mounted diskSize) {used : UInt32 → Prop}
    (htracks : c.Tracks used) {wanted : Nat} {blocks : List UInt32}
    (hoffers : c.volume.bitmap.Offers wanted blocks)
    (huse : ∀ block, c.disk.InUse block ↔ used block ∨ block ∈ blocks) :
    Effect.AllAllowed (Effect.allocate blocks) c ∧
      (c.after (Effect.allocate blocks)).Sound diskSize := by
  obtain ⟨hallowed, htracks'⟩ := htracks.allocate h.fits h.bitmap_lt_size hoffers
  obtain ⟨hmounted, hsame⟩ := h.bookkeeping fun _ => Effect.bookkeeping_allocate
  exact ⟨hallowed, hmounted, htracks'.congr fun block => hsame.inUse_iff.trans (huse block)⟩

/-! ### Safety -/

namespace Safe

variable (h : c.Safe diskSize)

include h

theorem spare {wanted : Nat} {blocks : List UInt32}
    (hoffers : c.volume.bitmap.Offers wanted blocks) :
    ∀ block ∈ blocks, c.disk.Spare diskSize block := by
  intro block hblock
  obtain ⟨hlow, hhigh, hclear⟩ := Bitmap.mem_clear.mp (hoffers.clear block hblock)
  rw [h.mounted.bitmap] at hhigh
  refine h.mounted.consistent.spare_of_not_inUse (UInt32.le_iff_toNat_le.mpr hlow)
    (UInt32.lt_iff_toNat_lt.mpr hhigh) ?_
  intro hused
  rw [h.covers.marked hused] at hclear
  cases hclear

theorem of_bookkeeping {effect : Effect} (hbook : effect.Bookkeeping)
    (hcovers : (effect.change c).Covers c.disk.InUse) : (effect.change c).Safe diskSize := by
  have hall : ∀ other ∈ [effect], other.Bookkeeping := fun other hother => by
    rwa [List.mem_singleton.mp hother]
  obtain ⟨hmounted, hsame⟩ := h.mounted.bookkeeping hall
  exact ⟨hmounted, hcovers.mono fun hused => hsame.inUse_iff.mp hused⟩

theorem charge (count : Nat) : ((Effect.charge count).change c).Safe diskSize :=
  h.of_bookkeeping (fun block htarget => by cases htarget) (h.covers.counted count).1

theorem credit (count : Nat) : ((Effect.credit count).change c).Safe diskSize :=
  h.of_bookkeeping (fun block htarget => by cases htarget) (h.covers.counted count).2

theorem saveBitmap : (Effect.saveBitmap.change c).Safe diskSize :=
  h.of_bookkeeping (fun _ htarget => (Option.some.inj htarget).symm) h.covers.saveBitmap

theorem throughout_allocate {blocks : List UInt32} (hblocks : ∀ id ∈ blocks, id < diskSize) :
    Throughout (Safe · diskSize) c (Effect.allocate blocks) := by
  have hmark : ((Effect.mark blocks true).change c).Safe diskSize :=
    h.of_bookkeeping (fun block htarget => by cases htarget)
      (h.covers.marked_true h.mounted.fits (by rwa [h.mounted.bitmap]))
  exact throughout_cons h (throughout_cons hmark (throughout_cons hmark.saveBitmap
    (throughout_nil (hmark.saveBitmap.charge _))))

theorem covers_allocate {blocks : List UInt32} (hblocks : ∀ id ∈ blocks, id < diskSize) :
    (c.after (Effect.allocate blocks)).Covers fun block =>
      c.disk.InUse block ∨ block ∈ blocks := by
  exact (h.covers.allocated h.mounted.fits (by rwa [h.mounted.bitmap])).counted _ |>.1

theorem throughout_deallocate {blocks : List UInt32} (hblocks : ∀ id ∈ blocks, id < diskSize)
    (hfree : ∀ id ∈ blocks, ¬ c.disk.InUse id) :
    Throughout (Safe · diskSize) c (Effect.deallocate blocks) := by
  rw [Effect.deallocate]
  split
  · exact throughout_nil h
  · have hmark : ((Effect.mark blocks false).change c).Safe diskSize :=
      h.of_bookkeeping (fun block htarget => by cases htarget)
        (h.covers.marked_false h.mounted.fits (by rwa [h.mounted.bitmap]) hfree)
    exact throughout_cons h (throughout_cons hmark (throughout_cons hmark.saveBitmap
      (throughout_nil (hmark.saveBitmap.credit _))))

end Safe

end Content

end BlockFS
