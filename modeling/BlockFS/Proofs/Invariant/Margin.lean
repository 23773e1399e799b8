import Mathlib.Algebra.Ring.Nat
import BlockFS.Proofs.Volume.Refusals

/-!
Counters that are never too low. Nothing is assumed here of the disk or of the inodes on it, so the
same block may be given back twice, and a block that is given back may have been free. Such a call
clears fewer bits than it counts. As long as the bitmap can be written, at least as many blocks are
therefore counted as free as have a clear bit, and a call that takes blocks, which it found clear,
never counts below zero. What bounds the counter from above is only how many blocks were given back.
-/

set_option autoImplicit false
set_option relaxedAutoImplicit false

namespace BlockFS

theorem Bitmap.length_clear_unmarked_le {b : Bitmap} (hfits : b.Fits) (start : Nat)
    (ids : List UInt32) :
    ((b.marked ids false).clear start).length ≤ (b.clear start).length + ids.length := by
  by_cases h : ∀ id ∈ ids, id < b.blocks
  · obtain ⟨-, hblocks, hbits⟩ := markEach_spec hfits h false
    have hsubset : (b.marked ids false).clear start ⊆ b.clear start ++ ids.map UInt32.toNat := by
      intro i hi
      rw [mem_clear, hblocks, hbits] at hi
      rw [List.mem_append, mem_clear]
      by_cases hmem : i ∈ ids.map UInt32.toNat
      · exact .inr hmem
      · rw [if_neg hmem] at hi
        exact .inl hi
    have hle := (List.subperm_of_subset (nodup_clear (b.marked ids false) start) hsubset).length_le
    rwa [List.length_append, List.length_map] at hle
  · rw [marked, markEach_of_out_of_range h]
    exact Nat.le_add_right _ _

/-! ### How effects fail -/

namespace Effect

/-- An effect that, if it is a write, keeps to its block. -/
def Inside : Effect → Prop
  | overlay _ start bytes => start + bytes.length ≤ blockSize
  | _ => True

def Overflows (usage : Usage) : Effect → Prop
  | charge count => usage.free.toNat < count
  | credit count => UInt32.size ≤ usage.free.toNat + count
  | _ => False

theorem Placed.inside {effect : Effect} (h : effect.Placed) : effect.Inside := by
  cases effect with
  | overlay id start bytes => exact h
  | _ => trivial

def returned : Effect → Nat
  | mark blocks false => blocks.length
  | _ => 0

theorem Placed.returned {effect : Effect} (h : effect.Placed) : effect.returned = 0 := by
  cases effect with
  | mark blocks used => exact h.elim
  | _ => rfl

theorem inside_allocate {blocks : List UInt32} {effect : Effect}
    (h : effect ∈ allocate blocks) : effect.Inside := by
  simp only [allocate, List.mem_cons, List.not_mem_nil, or_false] at h
  rcases h with rfl | rfl | rfl <;> trivial

theorem inside_deallocate {blocks : List UInt32} {effect : Effect}
    (h : effect ∈ deallocate blocks) : effect.Inside := by
  rw [deallocate] at h
  split at h
  · cases h
  · simp only [List.mem_cons, List.not_mem_nil, or_false] at h
    rcases h with rfl | rfl | rfl <;> trivial

theorem inside_of_accounts {b : Bitmap} {effects : List Effect} (h : b.Accounts effects) :
    ∀ effect ∈ effects, effect.Inside := by
  intro effect heffect
  cases h with
  | writes hplaced => exact (hplaced effect heffect).inside
  | takes hfirst _ hlast =>
    rcases List.mem_append.mp heffect with heffect | heffect
    · exact (hfirst effect heffect).inside
    rcases List.mem_append.mp heffect with heffect | heffect
    · exact inside_allocate heffect
    · exact (hlast effect heffect).inside
  | gives hfirst =>
    rcases List.mem_append.mp heffect with heffect | heffect
    · exact (hfirst effect heffect).inside
    · exact inside_deallocate heffect

end Effect

namespace Device

theorem write_error {d d' : Device} {id : UInt32} {contents : Block} {failure : Failure}
    (h : write id contents d = .error failure d') : failure = .refused .io := by
  rw [write] at h
  split at h
  · cases h
    rfl
  · cases h

theorem overlay_error {d d' : Device} {id : UInt32} {start : Nat} {bytes : List UInt8}
    {failure : Failure} (hinside : start + bytes.length ≤ blockSize)
    (h : overlay id start bytes d = .error failure d') : failure = .refused .io := by
  have hwrite : ∀ (old : Block) (d : Device),
      (do write id (← Window.write old start bytes) : EStateM Failure Device Unit) d =
        .error failure d' → failure = .refused .io := by
    intro old d hwrite
    rw [Window.write, dif_pos hinside] at hwrite
    exact write_error hwrite
  rw [overlay] at h
  split at h
  · exact hwrite Block.zero d h
  · by_cases hrefused : d.RefusesRead id
    · simp only [bind, EStateM.bind, read_of_refused hrefused] at h
      cases h
      rfl
    · simp only [bind, EStateM.bind, read_of_granted hrefused] at h
      exact hwrite (d.disk.block id) { d with accesses := d.accesses + 1 } h

end Device

namespace FileSystem

variable {fs fs' : FileSystem} {effect : Effect} {effects rest : List Effect} {failure : Failure}

theorem apply_error (hfits : fs.volume.bitmap.Fits) (hinside : effect.Inside)
    (h : apply effect fs = .error failure fs') :
    failure = .refused .io ∨ failure = .overflow ∧ effect.Overflows fs.volume.usage := by
  cases effect with
  | store id contents =>
    obtain ⟨device, hwrite⟩ := onDevice_error h
    exact .inl (Device.write_error hwrite)
  | overlay id start bytes =>
    obtain ⟨device, hoverlay⟩ := onDevice_error h
    exact .inl (Device.overlay_error hinside hoverlay)
  | saveBitmap =>
    obtain ⟨device, hwrite⟩ := onDevice_error h
    exact .inl (Device.write_error hwrite)
  | mark ids used =>
    rw [apply, onBitmap] at h
    by_cases hrange : ∀ id ∈ ids, id < fs.volume.bitmap.blocks
    · rw [(Bitmap.markEach_spec hfits hrange used).1] at h
      cases h
    · rw [Bitmap.markEach_of_out_of_range hrange] at h
      cases h
      exact .inl rfl
  | charge count =>
    rw [apply, onUsage, Usage.charge] at h
    split at h
    · cases h
    · rename_i other heq
      split at heq <;> cases heq
      cases h
      exact .inr ⟨rfl, ‹_›⟩
  | credit count =>
    rw [apply, onUsage, Usage.credit] at h
    split at h
    · cases h
    · rename_i other heq
      split at heq <;> cases heq
      cases h
      exact .inr ⟨rfl, ‹_›⟩

/-- Effects that keep to their blocks fail for a device error, or where the counters cannot
follow. -/
theorem commit_error (hfits : fs.volume.bitmap.Fits) (hinside : ∀ effect ∈ effects, effect.Inside)
    (h : commit effects fs = .error failure fs') :
    failure = .refused .io ∨ failure = .overflow ∧ ∃ first effect rest middle,
      effects = first ++ effect :: rest ∧ commit first fs = .ok () middle ∧
        effect.Overflows middle.volume.usage := by
  induction effects generalizing fs with
  | nil => cases h
  | cons effect rest ih =>
    rcases apply_spec effect hfits with ⟨fs₁, happly, -, hcontent⟩ | ⟨failure₁, fs₁, happly, -⟩
    · have hfits₁ : fs₁.content.volume.bitmap.Fits := hcontent ▸ effect.fits_change hfits
      rw [commit_cons_of_ok happly] at h
      rcases ih hfits₁ (fun e he => hinside e (List.mem_cons_of_mem effect he)) h with
        hio | ⟨hoverflow, first, other, others, middle, rfl, hfirst, hoverflows⟩
      · exact .inl hio
      · refine .inr ⟨hoverflow, effect :: first, other, others, middle, rfl, ?_, hoverflows⟩
        rw [commit_cons_of_ok happly, hfirst]
    · rw [commit_cons_of_error happly] at h
      cases h
      rcases apply_error hfits (hinside effect List.mem_cons_self) happly with
        hio | ⟨hoverflow, hoverflows⟩
      · exact .inl hio
      · exact .inr ⟨hoverflow, [], effect, rest, fs, rfl, rfl, hoverflows⟩

/-! ### Keeping the margin -/

/-- The blocks given back by effects that are carried out, up to the first that fails. -/
def returned (fs : FileSystem) : List Effect → Nat
  | [] => 0
  | effect :: rest =>
    match apply effect fs with
    | .ok _ fs' => effect.returned + fs'.returned rest
    | .error _ _ => 0

theorem returned_le (fs : FileSystem) (effects : List Effect) :
    fs.returned effects ≤ (effects.map Effect.returned).sum := by
  induction effects generalizing fs with
  | nil => exact Nat.le_refl 0
  | cons effect rest ih =>
    rw [returned, List.map_cons, List.sum_cons]
    split
    · exact Nat.add_le_add_left (ih _) _
    · exact Nat.zero_le _

/-- Whenever the bitmap is to be written while effects are carried out, the device takes it. -/
def Saves (fs : FileSystem) (effects : List Effect) : Prop :=
  ∀ first rest fs', effects = first ++ .saveBitmap :: rest → commit first fs = .ok () fs' →
    ¬ fs'.device.RefusesWrite bitmapId

theorem Saves.tail (h : fs.Saves (effect :: rest)) (happly : apply effect fs = .ok () fs') :
    fs'.Saves rest := by
  rintro first others fs'' rfl hcommit
  refine h (effect :: first) others fs'' rfl ?_
  rw [commit_cons_of_ok happly, hcommit]

end FileSystem

/-- At least as many blocks are counted as free as are clear, and no more than there can be and were
given back. -/
structure Volume.Margin (v : Volume) (released : Nat) : Prop where
  clear : (v.bitmap.clear reservedBlocks.toNat).length ≤ v.usage.free.toNat
  free : v.usage.free.toNat ≤ maxDiskBlocks + released

theorem Volume.Margin.mono {v : Volume} {released released' : Nat} (h : v.Margin released)
    (hle : released ≤ released') : v.Margin released' :=
  ⟨h.clear, Nat.le_trans h.free (Nat.add_le_add_left hle _)⟩

theorem Usage.Counts.margin {v : Volume} (h : v.usage.Counts v.bitmap) (hfits : v.bitmap.Fits) :
    v.Margin 0 := by
  have hfree := h.free
  have hlength := v.bitmap.length_clear_le reservedBlocks.toNat
  have hblocks : v.bitmap.blocks.toNat ≤ maxDiskBlocks := hfits
  exact ⟨by omega, by omega⟩

namespace FileSystem

variable {fs fs' : FileSystem} {effect : Effect} {effects rest : List Effect} {failure : Failure}
  {released : Nat}

/-- Carrying out effects keeps the margin as long as the bitmap can be written, and does not
overflow before very many blocks were given back. -/
structure KeepsMargin (fs : FileSystem) (effects : List Effect) (released : Nat) : Prop where
  overflow : ∀ {fs'}, commit effects fs = .error .overflow fs' →
    2 ^ 31 ≤ released + fs.returned effects
  margin : fs.Saves effects → released + fs.returned effects < 2 ^ 31 →
    (ending (commit effects fs)).volume.Margin (released + fs.returned effects)

namespace KeepsMargin

theorem nil (h : fs.volume.Margin released) : fs.KeepsMargin [] released :=
  ⟨nofun, fun _ _ => h⟩

theorem cons (happly : apply effect fs = .ok () fs')
    (h : fs'.KeepsMargin rest (released + effect.returned)) :
    fs.KeepsMargin (effect :: rest) released := by
  have hreturned : fs.returned (effect :: rest) = effect.returned + fs'.returned rest := by
    rw [FileSystem.returned, happly]
  refine ⟨fun hcommit => ?_, fun hsaves hlimit => ?_⟩
  · rw [commit_cons_of_ok happly] at hcommit
    rw [hreturned, ← Nat.add_assoc]
    exact h.overflow hcommit
  · rw [hreturned, ← Nat.add_assoc] at hlimit ⊢
    rw [commit_cons_of_ok happly]
    exact h.margin (hsaves.tail happly) hlimit

theorem stop (happly : apply effect fs = .error (.refused .io) fs')
    (hvolume : fs'.volume = fs.volume) (h : fs.volume.Margin released) :
    fs.KeepsMargin (effect :: rest) released := by
  refine ⟨fun hcommit => ?_, fun _ _ => ?_⟩
  · rw [commit_cons_of_error happly] at hcommit
    cases hcommit
  · rw [commit_cons_of_error happly, ending, hvolume]
    exact h.mono (Nat.le_add_right _ _)

theorem save (h : ∀ device, (FileSystem.mk device fs.volume).KeepsMargin rest released) :
    fs.KeepsMargin (.saveBitmap :: rest) released := by
  by_cases hrefused : fs.device.RefusesWrite bitmapId
  · have happly : apply .saveBitmap fs = .error (.refused .io)
        { fs with device := { fs.device with accesses := fs.device.accesses + 1 } } := by
      simp only [apply, onDevice, Bitmap.save, Device.write_of_refused hrefused]
    refine ⟨fun hcommit => ?_, fun hsaves _ => absurd hrefused (hsaves [] rest fs rfl rfl)⟩
    rw [commit_cons_of_error happly] at hcommit
    cases hcommit
  · refine cons ?_ (h { fs.device with
      disk := fs.device.disk.set bitmapId fs.volume.bitmap.map
      accesses := fs.device.accesses + 1
      completed := fs.device.completed + 1 })
    simp only [apply, onDevice, Bitmap.save, Device.write_of_granted hrefused]

theorem write (hplaced : effect.Placed) (hmargin : fs.volume.Margin released)
    (h : ∀ device, (FileSystem.mk device fs.volume).KeepsMargin rest released) :
    fs.KeepsMargin (effect :: rest) released := by
  obtain ⟨action, haction, herror⟩ : ∃ action, apply effect = onDevice action ∧
      ∀ {d failure d'}, action d = .error failure d' → failure = .refused .io := by
    cases effect with
    | store id contents => exact ⟨_, rfl, Device.write_error⟩
    | overlay id start bytes => exact ⟨_, rfl, Device.overlay_error hplaced⟩
    | _ => exact hplaced.elim
  cases hdevice : action fs.device with
  | ok _ device =>
    have happly : apply effect fs = .ok () ⟨device, fs.volume⟩ := by
      rw [haction, onDevice, hdevice]
    refine cons happly ?_
    rw [hplaced.returned]
    exact h device
  | error failure device =>
    obtain rfl := herror hdevice
    have happly : apply effect fs = .error (.refused .io) ⟨device, fs.volume⟩ := by
      rw [haction, onDevice, hdevice]
    exact stop happly rfl hmargin

theorem writes (hplaced : ∀ effect ∈ effects, effect.Placed) (hmargin : fs.volume.Margin released)
    (h : ∀ device, (FileSystem.mk device fs.volume).KeepsMargin rest released) :
    fs.KeepsMargin (effects ++ rest) released := by
  induction effects generalizing fs with
  | nil => exact h fs.device
  | cons effect others ih =>
    refine write (hplaced effect List.mem_cons_self) hmargin fun device => ?_
    exact ih (fun e he => hplaced e (List.mem_cons_of_mem effect he)) hmargin h

theorem placed (hplaced : ∀ effect ∈ effects, effect.Placed)
    (hmargin : fs.volume.Margin released) : fs.KeepsMargin effects released := by
  rw [← List.append_nil effects]
  exact writes hplaced hmargin fun device => nil hmargin

theorem mark (hfits : fs.volume.bitmap.Fits) {ids : List UInt32} {used : Bool}
    (hrange : ∀ id ∈ ids, id < fs.volume.bitmap.blocks)
    (h : FileSystem.KeepsMargin
      ⟨fs.device, { fs.volume with bitmap := fs.volume.bitmap.marked ids used }⟩ rest
        (released + (Effect.mark ids used).returned)) :
    fs.KeepsMargin (.mark ids used :: rest) released := by
  refine cons ?_ h
  rw [apply, onBitmap, (Bitmap.markEach_spec hfits hrange used).1]

theorem charge {count : Nat} (hcount : count ≤ fs.volume.usage.free.toNat)
    (h : ∀ usage : Usage, usage.free.toNat = fs.volume.usage.free.toNat - count →
      FileSystem.KeepsMargin ⟨fs.device, { fs.volume with usage := usage }⟩ rest released) :
    fs.KeepsMargin (.charge count :: rest) released := by
  have hcharge : fs.volume.usage.charge count = .ok { fs.volume.usage with
      free := UInt32.ofNat (fs.volume.usage.free.toNat - count) } := if_neg (Nat.not_lt.mpr hcount)
  refine cons ?_ (h { fs.volume.usage with
    free := UInt32.ofNat (fs.volume.usage.free.toNat - count) } ?_)
  · simp only [apply, onUsage, hcharge]
  · exact UInt32.toNat_ofNat_of_lt'
      (Nat.lt_of_le_of_lt (Nat.sub_le _ _) fs.volume.usage.free.toNat_lt)

/-- The counter leaves its word only after very many blocks were given back. -/
theorem credit {count : Nat}
    (hlimit : fs.volume.usage.free.toNat + count ≤ maxDiskBlocks + released)
    (h : ∀ usage : Usage, usage.free.toNat = fs.volume.usage.free.toNat + count →
      FileSystem.KeepsMargin ⟨fs.device, { fs.volume with usage := usage }⟩ rest released) :
    fs.KeepsMargin (.credit count :: rest) released := by
  by_cases hword : UInt32.size ≤ fs.volume.usage.free.toNat + count
  · have hlarge : 2 ^ 31 ≤ released := by
      unfold maxDiskBlocks at hlimit
      unfold UInt32.size at hword
      omega
    refine ⟨fun _ => Nat.le_trans hlarge (Nat.le_add_right _ _), fun _ hsmall => ?_⟩
    omega
  · have hcredit : fs.volume.usage.credit count = .ok { fs.volume.usage with
        free := UInt32.ofNat (fs.volume.usage.free.toNat + count) } := if_neg hword
    refine cons ?_ (h { fs.volume.usage with
      free := UInt32.ofNat (fs.volume.usage.free.toNat + count) } ?_)
    · simp only [apply, onUsage, hcredit]
    · exact UInt32.toNat_ofNat_of_lt' (Nat.lt_of_not_le hword)

theorem allocate {v : Volume} (device : Device) (hfits : v.bitmap.Fits) {wanted : Nat}
    {blocks : List UInt32} (hoffers : v.bitmap.Offers wanted blocks)
    (hlast : ∀ effect ∈ effects, effect.Placed) (hmargin : v.Margin released) :
    (FileSystem.mk device v).KeepsMargin (Effect.allocate blocks ++ effects) released := by
  have hrange : ∀ id ∈ blocks, id < v.bitmap.blocks := fun id hid =>
    UInt32.lt_iff_toNat_lt.mpr (Bitmap.mem_clear.mp (hoffers.clear id hid)).2.1
  have hclear := Bitmap.length_clear_allocated hfits hoffers.nodup hoffers.clear
  have hcounted := hmargin.clear
  have hbound := hmargin.free
  refine mark hfits hrange (save fun device' => charge ?_ fun usage husage => placed hlast ⟨?_, ?_⟩)
  · show blocks.length ≤ v.usage.free.toNat
    omega
  · show ((v.bitmap.marked blocks true).clear reservedBlocks.toNat).length ≤
      usage.free.toNat
    rw [husage]
    show _ ≤ v.usage.free.toNat - blocks.length
    omega
  · show usage.free.toNat ≤ maxDiskBlocks + released
    rw [husage]
    exact Nat.le_trans (Nat.sub_le _ _) hbound

theorem deallocate {v : Volume} (device : Device) (hfits : v.bitmap.Fits) (blocks : List UInt32)
    (hmargin : v.Margin released) :
    (FileSystem.mk device v).KeepsMargin (Effect.deallocate blocks) released := by
  rw [Effect.deallocate]
  split
  · exact nil hmargin
  by_cases hrange : ∀ id ∈ blocks, id < v.bitmap.blocks
  · have hclear := Bitmap.length_clear_unmarked_le hfits reservedBlocks.toNat blocks
    have hcounted := hmargin.clear
    have hbound : v.usage.free.toNat + blocks.length ≤
        maxDiskBlocks + (released + blocks.length) := by
      have := hmargin.free
      omega
    refine mark hfits hrange (save fun device' => credit hbound fun usage husage => nil ⟨?_, ?_⟩)
    · show ((v.bitmap.marked blocks false).clear reservedBlocks.toNat).length ≤
        usage.free.toNat
      rw [husage]
      show _ ≤ v.usage.free.toNat + blocks.length
      omega
    · show usage.free.toNat ≤ _
      rw [husage]
      exact hbound
  · have happly : apply (.mark blocks false) ⟨device, v⟩ = .error (.refused .io) ⟨device, v⟩ := by
      simp only [apply, onBitmap, Bitmap.markEach_of_out_of_range hrange]
    exact stop happly rfl hmargin

theorem of_accounts (hfits : fs.volume.bitmap.Fits)
    (haccounts : fs.volume.bitmap.Accounts effects) (hmargin : fs.volume.Margin released) :
    fs.KeepsMargin effects released := by
  cases haccounts with
  | writes hplaced => exact placed hplaced hmargin
  | takes hfirst hoffers hlast =>
    exact writes hfirst hmargin fun device => allocate device hfits hoffers hlast hmargin
  | gives hfirst =>
    exact writes hfirst hmargin fun device => deallocate device hfits _ hmargin

end KeepsMargin

end FileSystem

end BlockFS
