import BlockFS.Proofs.Space.Bitmap
import BlockFS.Volume.Effect

/-!
What effects do to the contents of a file system. `Effect.change` is the change that an effect makes
when it succeeds, and `Effect.Allowed` what it needs for that on a device that does not fail.
-/

set_option autoImplicit false
set_option relaxedAutoImplicit false

namespace BlockFS

def Block.overlaid (block : Block) (start : Nat) (bytes : List UInt8) : Block :=
  match Window.write block start bytes with
  | .ok new => new
  | .error _ => block

/-- What is on the disk and what is held in memory. -/
structure Content where
  disk : Disk
  volume : Volume

namespace Effect

def change : Effect → Content → Content
  | .store id contents, c => { c with disk := c.disk.set id contents }
  | .overlay id start bytes, c =>
    { c with disk := c.disk.set id ((c.disk.block id).overlaid start bytes) }
  | .mark ids used, c =>
    { c with volume := { c.volume with bitmap := c.volume.bitmap.marked ids used } }
  | .saveBitmap, c => { c with disk := c.disk.set bitmapId c.volume.bitmap.map }
  | .charge count, c =>
    match c.volume.usage.charge count with
    | .ok usage => { c with volume := { c.volume with usage := usage } }
    | .error _ => c
  | .credit count, c =>
    match c.volume.usage.credit count with
    | .ok usage => { c with volume := { c.volume with usage := usage } }
    | .error _ => c

/-- What an effect needs to succeed on a device that does not fail. -/
def Allowed : Effect → Content → Prop
  | .store id _, c => id.toNat < c.disk.size
  | .overlay id start bytes, c => id.toNat < c.disk.size ∧ start + bytes.length ≤ blockSize
  | .mark ids _, c => ∀ id ∈ ids, id < c.volume.bitmap.blocks
  | .saveBitmap, c => bitmapId.toNat < c.disk.size
  | .charge count, c => ∃ usage, c.volume.usage.charge count = .ok usage
  | .credit count, c => ∃ usage, c.volume.usage.credit count = .ok usage

def AllAllowed : List Effect → Content → Prop
  | [], _ => True
  | effect :: rest, c => effect.Allowed c ∧ AllAllowed rest (effect.change c)

theorem size_change (effect : Effect) (c : Content) :
    (effect.change c).disk.size = c.disk.size := by
  cases effect with
  | charge count =>
    simp only [change]
    split <;> rfl
  | credit count =>
    simp only [change]
    split <;> rfl
  | _ => rfl

theorem superblock_change (effect : Effect) (c : Content) :
    (effect.change c).volume.superblock = c.volume.superblock := by
  cases effect with
  | charge count =>
    simp only [change]
    split <;> rfl
  | credit count =>
    simp only [change]
    split <;> rfl
  | _ => rfl

end Effect

namespace Bitmap

theorem markEach_of_out_of_range {b : Bitmap} {ids : List UInt32}
    (h : ¬ ∀ id ∈ ids, id < b.blocks) (used : Bool) :
    markEach ids used b = .error (.refused .io) b := by
  have hany : (ids.any fun id => b.blocks ≤ id) = true := by
    rw [List.any_eq_true]
    by_contra hnone
    refine h fun id hid => UInt32.not_le.mp fun hle => hnone ⟨id, hid, ?_⟩
    simpa using hle
  rw [markEach, hany, if_pos rfl]

theorem blocks_marked {b : Bitmap} (hfits : b.Fits) (ids : List UInt32) (used : Bool) :
    (b.marked ids used).blocks = b.blocks := by
  by_cases h : ∀ id ∈ ids, id < b.blocks
  · exact (markEach_spec hfits h used).2.1
  · rw [marked, markEach_of_out_of_range h]

end Bitmap

theorem Effect.bitmap_credit (count : Nat) (c : Content) :
    ((Effect.credit count).change c).volume.bitmap = c.volume.bitmap := by
  rw [change]
  split <;> rfl

theorem Effect.blocks_change (effect : Effect) {c : Content} (hfits : c.volume.bitmap.Fits) :
    (effect.change c).volume.bitmap.blocks = c.volume.bitmap.blocks := by
  cases effect with
  | mark ids used => exact Bitmap.blocks_marked hfits ids used
  | charge count =>
    simp only [Effect.change]
    split <;> rfl
  | credit count =>
    simp only [Effect.change]
    split <;> rfl
  | _ => rfl

theorem Effect.fits_change (effect : Effect) {c : Content} (hfits : c.volume.bitmap.Fits) :
    (effect.change c).volume.bitmap.Fits := by
  unfold Bitmap.Fits
  rw [effect.blocks_change hfits]
  exact hfits

/-- The contents after a list of effects that all succeed. -/
def Content.after (c : Content) (effects : List Effect) : Content :=
  effects.foldl (fun c effect => effect.change c) c

namespace Content

@[simp] theorem after_nil (c : Content) : c.after [] = c := rfl

@[simp] theorem after_cons (c : Content) (effect : Effect) (rest : List Effect) :
    c.after (effect :: rest) = (effect.change c).after rest := rfl

theorem after_append (c : Content) (first second : List Effect) :
    c.after (first ++ second) = (c.after first).after second := List.foldl_append

end Content

end BlockFS
