import BlockFS.Proofs.Space.Tracking
import BlockFS.Proofs.Tree.Frame

/-!
Which blocks effects write. An effect changes no block but its target, and one that writes to the
disk changes nothing in memory. Effects whose targets are not structural leave the tree as it is.
-/

set_option autoImplicit false
set_option relaxedAutoImplicit false

namespace BlockFS

namespace Effect

def target : Effect → Option UInt32
  | .store id _ => some id
  | .overlay id _ _ => some id
  | .saveBitmap => some bitmapId
  | _ => none

/-- An effect that writes given contents to a block. -/
def IsWrite : Effect → Prop
  | .store _ _ => True
  | .overlay _ _ _ => True
  | _ => False

theorem block_change {effect : Effect} {block : UInt32} (h : effect.target ≠ some block)
    (c : Content) : (effect.change c).disk.block block = c.disk.block block := by
  cases effect with
  | store id contents => rw [change, Disk.block_set, if_neg fun heq => h (congrArg some heq)]
  | overlay id start bytes => rw [change, Disk.block_set, if_neg fun heq => h (congrArg some heq)]
  | saveBitmap => rw [change, Disk.block_set, if_neg fun heq => h (congrArg some heq)]
  | mark ids used => rfl
  | charge count =>
    rw [change]
    split <;> rfl
  | credit count =>
    rw [change]
    split <;> rfl

theorem target_ne_of_mark {ids : List UInt32} {used : Bool} (block : UInt32) :
    ∀ effect ∈ [mark ids used], effect.target ≠ some block :=
  List.forall_mem_singleton.mpr (Option.some_ne_none block).symm

theorem volume_change {effect : Effect} (h : effect.IsWrite) (c : Content) :
    (effect.change c).volume = c.volume := by
  cases effect with
  | store id contents => rfl
  | overlay id start bytes => rfl
  | _ => exact h.elim

def ClearsNone : Effect → Prop
  | .store id _ => id ≠ bitmapId
  | .overlay id _ _ => id ≠ bitmapId
  | .mark _ used => used = true
  | _ => True

/-- An effect that writes no block but that of the bitmap. -/
def Bookkeeping (effect : Effect) : Prop := ∀ block, effect.target = some block → block = bitmapId

theorem bookkeeping_allocate {blocks : List UInt32} {effect : Effect}
    (h : effect ∈ allocate blocks) : effect.Bookkeeping := by
  intro block htarget
  simp only [allocate, List.mem_cons, List.not_mem_nil, or_false] at h
  rcases h with rfl | rfl | rfl
  · cases htarget
  · exact (Option.some.inj htarget).symm
  · cases htarget

theorem bookkeeping_deallocate {blocks : List UInt32} {effect : Effect}
    (h : effect ∈ deallocate blocks) : effect.Bookkeeping := by
  intro block htarget
  rw [deallocate] at h
  split at h
  · cases h
  · simp only [List.mem_cons, List.not_mem_nil, or_false] at h
    rcases h with rfl | rfl | rfl
    · cases htarget
    · exact (Option.some.inj htarget).symm
    · cases htarget

theorem allAllowed_append {first second : List Effect} {c : Content} :
    AllAllowed (first ++ second) c ↔ AllAllowed first c ∧ AllAllowed second (c.after first) := by
  induction first generalizing c with
  | nil => exact (iff_of_eq (true_and _)).symm
  | cons effect rest ih =>
    rw [List.cons_append, AllAllowed, AllAllowed, ih, and_assoc, Content.after_cons]

theorem allAllowed_of_writes {effects : List Effect} {c : Content}
    (h : ∀ effect ∈ effects, effect.IsWrite ∧ effect.Allowed c) : AllAllowed effects c := by
  induction effects generalizing c with
  | nil => trivial
  | cons effect rest ih =>
    refine ⟨(h effect List.mem_cons_self).2, ih ?_⟩
    intro other hother
    obtain ⟨hwrite, hallowed⟩ := h other (List.mem_cons_of_mem effect hother)
    refine ⟨hwrite, ?_⟩
    cases other with
    | store id contents =>
      rw [Allowed, size_change]
      exact hallowed
    | overlay id start bytes =>
      rw [Allowed, size_change]
      exact hallowed
    | _ => exact hwrite.elim

end Effect

namespace Content

variable {c : Content} {effects : List Effect}

theorem size_after (c : Content) (effects : List Effect) :
    (c.after effects).disk.size = c.disk.size := by
  induction effects generalizing c with
  | nil => rfl
  | cons effect rest ih => rw [after_cons, ih, Effect.size_change]

theorem superblock_after (c : Content) (effects : List Effect) :
    (c.after effects).volume.superblock = c.volume.superblock := by
  induction effects generalizing c with
  | nil => rfl
  | cons effect rest ih => rw [after_cons, ih, Effect.superblock_change]

theorem blocks_after (hfits : c.volume.bitmap.Fits) (effects : List Effect) :
    (c.after effects).volume.bitmap.blocks = c.volume.bitmap.blocks := by
  induction effects generalizing c with
  | nil => rfl
  | cons effect rest ih =>
    rw [after_cons, ih (effect.fits_change hfits), effect.blocks_change hfits]

theorem block_after {block : UInt32} (h : ∀ effect ∈ effects, effect.target ≠ some block) :
    (c.after effects).disk.block block = c.disk.block block := by
  induction effects generalizing c with
  | nil => rfl
  | cons effect rest ih =>
    rw [after_cons, ih fun other hother => h other (List.mem_cons_of_mem effect hother),
      Effect.block_change (h effect List.mem_cons_self)]

theorem volume_after (h : ∀ effect ∈ effects, effect.IsWrite) :
    (c.after effects).volume = c.volume := by
  induction effects generalizing c with
  | nil => rfl
  | cons effect rest ih =>
    rw [after_cons, ih fun other hother => h other (List.mem_cons_of_mem effect hother),
      Effect.volume_change (h effect List.mem_cons_self)]

theorem sameTree_after (h : ∀ effect ∈ effects, ∀ block, effect.target = some block →
    ¬ c.disk.Structural block) : Disk.SameTree c.disk (c.after effects).disk := by
  intro block hblock
  exact block_after fun effect heffect htarget => h effect heffect block htarget hblock

theorem Covers.change_of_clearsNone {used : UInt32 → Prop} (h : c.Covers used)
    (hfits : c.volume.bitmap.Fits) {effect : Effect} (hnone : effect.ClearsNone) :
    (effect.change c).Covers used := by
  cases effect with
  | store id contents => exact h.of_disk (by rw [Disk.block_set, if_neg hnone])
  | overlay id start bytes => exact h.of_disk (by rw [Disk.block_set, if_neg hnone])
  | saveBitmap => exact h.saveBitmap
  | mark ids used =>
    obtain rfl : used = true := hnone
    by_cases hrange : ∀ id ∈ ids, id < c.volume.bitmap.blocks
    · exact h.marked_true hfits hrange
    · rw [Effect.change, Bitmap.marked, Bitmap.markEach_of_out_of_range hrange]
      exact h
  | charge count => exact (h.counted count).1
  | credit count => exact (h.counted count).2

theorem Tracks.after_writes {used : UInt32 → Prop} (h : c.Tracks used)
    (hwrites : ∀ effect ∈ effects, effect.IsWrite ∧ effect.target ≠ some bitmapId) :
    (c.after effects).Tracks used := by
  have hvolume := volume_after (c := c) fun effect heffect => (hwrites effect heffect).1
  have hdisk := h.of_disk (block_after fun effect heffect => (hwrites effect heffect).2)
  rwa [← hvolume] at hdisk

theorem Covers.after_writes {used : UInt32 → Prop} (h : c.Covers used)
    (hwrites : ∀ effect ∈ effects, effect.IsWrite ∧ effect.target ≠ some bitmapId) :
    (c.after effects).Covers used := by
  have hvolume := volume_after (c := c) fun effect heffect => (hwrites effect heffect).1
  have hdisk := h.of_disk (block_after fun effect heffect => (hwrites effect heffect).2)
  rwa [← hvolume] at hdisk

theorem Covers.after_clearsNone {used : UInt32 → Prop} (h : c.Covers used)
    (hfits : c.volume.bitmap.Fits) (hnone : ∀ effect ∈ effects, effect.ClearsNone) :
    (c.after effects).Covers used := by
  induction effects generalizing c with
  | nil => exact h
  | cons effect rest ih =>
    exact ih (h.change_of_clearsNone hfits (hnone effect List.mem_cons_self))
      (effect.fits_change hfits) fun other hother =>
        hnone other (List.mem_cons_of_mem effect hother)

end Content

end BlockFS
