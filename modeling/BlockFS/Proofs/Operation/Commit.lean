import BlockFS.Proofs.Operation.Change

/-!
Carrying out effects on a device that may fail. A plan of faults serves an effect when it refuses
none of the accesses that the effect makes. Effects that are carried out in order stop only in
front of one that is not served or not allowed, so `Ends` lists the contents in which they can leave
a file system.
-/

set_option autoImplicit false
set_option relaxedAutoImplicit false

namespace BlockFS

namespace Effect

/-- No access that an effect makes is refused by a plan of faults. -/
def Served (faults : Faults) : Effect → Prop
  | .store id _ => ∀ accesses completed, faults.write accesses completed id = false
  | .overlay id _ _ => (∀ accesses, faults.read accesses id = false) ∧
      ∀ accesses completed, faults.write accesses completed id = false
  | .saveBitmap => ∀ accesses completed, faults.write accesses completed bitmapId = false
  | _ => True

theorem served_none (effect : Effect) : effect.Served Faults.none := by
  cases effect <;> simp [Served, Faults.none]

/-- An effect that is sure to fail: every write of its block is refused, a block to be marked lies
past the last one, or a counter leaves its word. -/
def Fails (faults : Faults) (c : Content) : Effect → Failure → Prop
  | .store id _, failure => failure = .refused .io ∧
      ∀ accesses completed, faults.write accesses completed id = true
  | .overlay id start bytes, failure => failure = .refused .io ∧
      start + bytes.length ≤ blockSize ∧
      ∀ accesses completed, faults.write accesses completed id = true
  | .mark ids _, failure => failure = .refused .io ∧ ∃ id ∈ ids, c.volume.bitmap.blocks ≤ id
  | .saveBitmap, failure => failure = .refused .io ∧
      ∀ accesses completed, faults.write accesses completed bitmapId = true
  | .charge count, failure => c.volume.usage.charge count = .error failure
  | .credit count, failure => c.volume.usage.credit count = .error failure

end Effect

/-- Carrying out effects can end in a content: all of them were carried out, or those before one
that is not served or not allowed. -/
inductive Content.Ends (faults : Faults) : Content → List Effect → Content → Prop
  | all (c : Content) : Ends faults c [] c
  | stop {c : Content} {effect : Effect} {rest : List Effect}
      (h : ¬ (effect.Served faults ∧ effect.Allowed c)) : Ends faults c (effect :: rest) c
  | next {c c' : Content} {effect : Effect} {rest : List Effect}
      (h : Ends faults (effect.change c) rest c') : Ends faults c (effect :: rest) c'

/-- Effects are carried out up to one that is not served or not allowed. -/
inductive Content.Stops (faults : Faults) : Content → List Effect → Content → Prop
  | here {c : Content} {effect : Effect} {rest : List Effect}
      (h : ¬ (effect.Served faults ∧ effect.Allowed c)) : Stops faults c (effect :: rest) c
  | later {c c' : Content} {effect : Effect} {rest : List Effect}
      (h : Stops faults (effect.change c) rest c') : Stops faults c (effect :: rest) c'

namespace Content

variable {faults : Faults} {c c' : Content} {effects first second : List Effect}

theorem Stops.ends (h : Stops faults c effects c') : Ends faults c effects c' := by
  induction h with
  | here h => exact .stop h
  | later _ ih => exact .next ih

/-- The effects before one that is not served were carried out, if all of them are allowed. -/
theorem Stops.exists_split (h : Stops faults c effects c')
    (hallowed : Effect.AllAllowed effects c) : ∃ first effect rest,
      effects = first ++ effect :: rest ∧ c' = c.after first ∧ ¬ effect.Served faults := by
  induction h with
  | @here c effect rest h =>
    exact ⟨[], effect, rest, rfl, rfl, fun hserved => h ⟨hserved, hallowed.1⟩⟩
  | @later c c' effect rest _ ih =>
    obtain ⟨first, other, others, rfl, rfl, hserved⟩ := ih hallowed.2
    exact ⟨effect :: first, other, others, rfl, rfl, hserved⟩

theorem ends_after (faults : Faults) (c : Content) (effects : List Effect) :
    Ends faults c effects (c.after effects) := by
  induction effects generalizing c with
  | nil => exact .all c
  | cons effect rest ih => exact .next (ih (effect.change c))

namespace Ends

theorem exists_take (h : Ends faults c effects c') :
    ∃ count, c' = c.after (effects.take count) := by
  induction h with
  | all c => exact ⟨0, rfl⟩
  | stop _ => exact ⟨0, rfl⟩
  | next _ ih =>
    obtain ⟨count, rfl⟩ := ih
    exact ⟨count + 1, rfl⟩

theorem of_append (h : Ends faults c (first ++ second) c') :
    Ends faults c first c' ∨ Ends faults (c.after first) second c' := by
  induction first generalizing c with
  | nil => exact .inr h
  | cons effect rest ih =>
    cases h with
    | stop hstop => exact .inl (.stop hstop)
    | next hnext => exact (ih hnext).imp .next id

theorem past (h : Ends faults c (first ++ second) c')
    (hserved : ∀ effect ∈ first, effect.Served faults) (hallowed : Effect.AllAllowed first c) :
    Ends faults (c.after first) second c' := by
  induction first generalizing c with
  | nil => exact h
  | cons effect rest ih =>
    cases h with
    | stop hstop => exact absurd ⟨hserved effect List.mem_cons_self, hallowed.1⟩ hstop
    | next hnext =>
      exact ih hnext (fun e he => hserved e (List.mem_cons_of_mem effect he)) hallowed.2

theorem eq_after (h : Ends faults c effects c')
    (hserved : ∀ effect ∈ effects, effect.Served faults) (hallowed : Effect.AllAllowed effects c) :
    c' = c.after effects := by
  rw [← List.append_nil effects] at h
  cases h.past hserved hallowed
  rfl

end Ends

end Content

namespace Device

variable {d : Device} {id : UInt32}

theorem not_refusesRead (hserved : ∀ accesses, d.faults.read accesses id = false)
    (hsize : id.toNat < d.disk.size) : ¬ d.RefusesRead id := by
  rintro (hle | hfault)
  · omega
  · simp [hserved] at hfault

theorem not_refusesWrite
    (hserved : ∀ accesses completed, d.faults.write accesses completed id = false)
    (hsize : id.toNat < d.disk.size) : ¬ d.RefusesWrite id := by
  rintro (hle | hfault)
  · omega
  · simp [hserved] at hfault

/-- An action that leaves the faults of the device alone either fails, with the disk as it was, or
succeeds with the given disk. -/
def Leaves (action : EStateM Failure Device Unit) (d : Device) (disk : Disk) : Prop :=
  (∃ d', action d = .ok () d' ∧ d'.faults = d.faults ∧ d'.disk = disk) ∨
    ∃ failure d', action d = .error failure d' ∧ d'.faults = d.faults ∧ d'.disk = d.disk

theorem write_leaves (d : Device) (id : UInt32) (contents : Block) :
    Leaves (write id contents) d (d.disk.set id contents) := by
  by_cases h : d.RefusesWrite id
  · exact .inr ⟨_, _, write_of_refused h contents, rfl, rfl⟩
  · exact .inl ⟨_, write_of_granted h contents, rfl, rfl⟩

private theorem write_whole (old new : Block) {start : Nat} {bytes : List UInt8}
    (h : start = 0 ∧ bytes.length = blockSize) :
    Window.write old start bytes = Window.write new start bytes := by
  obtain ⟨rfl, hlength⟩ := h
  have hdrop : ∀ block : Block, block.toList.drop (0 + bytes.length) = [] := fun block =>
    List.drop_eq_nil_of_le (by rw [Vector.length_toList, hlength]; omega)
  simp only [Window.write, hdrop, List.take_zero]

private theorem overlay_eq (d : Device) (id : UInt32) (start : Nat) (bytes : List UInt8)
    (h : (start = 0 ∧ bytes.length = blockSize) ∨ ¬ d.RefusesRead id) :
    ∃ accesses, overlay id start bytes d =
      match Window.write (d.disk.block id) start bytes with
      | .ok new => write id new { d with accesses := accesses }
      | .error failure => .error failure { d with accesses := accesses } := by
  by_cases hwhole : start = 0 ∧ bytes.length = blockSize
  · refine ⟨d.accesses, ?_⟩
    rw [← write_whole Block.zero (d.disk.block id) hwhole]
    simp only [overlay, if_pos hwhole, bind, EStateM.bind, pure, EStateM.pure]
    cases Window.write Block.zero start bytes <;> rfl
  · refine ⟨d.accesses + 1, ?_⟩
    simp only [overlay, if_neg hwhole, bind, EStateM.bind,
      read_of_granted (h.resolve_left hwhole)]
    cases Window.write (d.disk.block id) start bytes <;> rfl

theorem overlay_leaves (d : Device) (id : UInt32) (start : Nat) (bytes : List UInt8) :
    Leaves (overlay id start bytes) d
      (d.disk.set id ((d.disk.block id).overlaid start bytes)) := by
  by_cases h : (start = 0 ∧ bytes.length = blockSize) ∨ ¬ d.RefusesRead id
  · obtain ⟨accesses, heq⟩ := overlay_eq d id start bytes h
    rw [Leaves, heq, Block.overlaid]
    cases Window.write (d.disk.block id) start bytes with
    | ok new => exact write_leaves { d with accesses := accesses } id new
    | error failure => exact .inr ⟨_, _, rfl, rfl, rfl⟩
  · obtain ⟨hwhole, hrefused⟩ := not_or.mp h
    refine .inr ⟨.refused .io, { d with accesses := d.accesses + 1 }, ?_, rfl, rfl⟩
    simp only [overlay, if_neg hwhole, bind, EStateM.bind,
      read_of_refused (Classical.not_not.mp hrefused)]

theorem write_of_allowed
    (hserved : ∀ accesses completed, d.faults.write accesses completed id = false)
    (hsize : id.toNat < d.disk.size) (contents : Block) : ∃ d', write id contents d = .ok () d' :=
  ⟨_, write_of_granted (not_refusesWrite hserved hsize) contents⟩

theorem write_of_failing
    (hfault : ∀ accesses completed, d.faults.write accesses completed id = true)
    (contents : Block) : ∃ d', write id contents d = .error (.refused .io) d' :=
  ⟨_, write_of_refused (.inr (hfault _ _)) contents⟩

theorem overlay_of_failing
    (hfault : ∀ accesses completed, d.faults.write accesses completed id = true) {start : Nat}
    {bytes : List UInt8} (hfit : start + bytes.length ≤ blockSize) :
    ∃ d', overlay id start bytes d = .error (.refused .io) d' := by
  by_cases h : (start = 0 ∧ bytes.length = blockSize) ∨ ¬ d.RefusesRead id
  · obtain ⟨accesses, heq⟩ := overlay_eq d id start bytes h
    rw [heq, Window.write, dif_pos hfit]
    exact write_of_failing (d := { d with accesses := accesses }) hfault _
  · obtain ⟨hwhole, hrefused⟩ := not_or.mp h
    refine ⟨{ d with accesses := d.accesses + 1 }, ?_⟩
    simp only [overlay, if_neg hwhole, bind, EStateM.bind,
      read_of_refused (Classical.not_not.mp hrefused)]

theorem overlay_of_allowed (hread : ∀ accesses, d.faults.read accesses id = false)
    (hwrite : ∀ accesses completed, d.faults.write accesses completed id = false)
    (hsize : id.toNat < d.disk.size) {start : Nat} {bytes : List UInt8}
    (hfit : start + bytes.length ≤ blockSize) : ∃ d', overlay id start bytes d = .ok () d' := by
  obtain ⟨accesses, heq⟩ := overlay_eq d id start bytes (.inr (not_refusesRead hread hsize))
  rw [heq, Window.write, dif_pos hfit]
  exact write_of_allowed (d := { d with accesses := accesses }) hwrite hsize _

theorem lt_size_of_write {contents : Block} {d' : Device} (h : write id contents d = .ok () d') :
    id.toNat < d.disk.size := by
  by_contra hge
  rw [write_of_refused (.inl (Nat.le_of_not_lt hge))] at h
  cases h

theorem within_of_overlay {start : Nat} {bytes : List UInt8} {d' : Device}
    (h : overlay id start bytes d = .ok () d') :
    id.toNat < d.disk.size ∧ start + bytes.length ≤ blockSize := by
  by_cases hread : (start = 0 ∧ bytes.length = blockSize) ∨ ¬ d.RefusesRead id
  · obtain ⟨accesses, heq⟩ := overlay_eq d id start bytes hread
    by_cases hfit : start + bytes.length ≤ blockSize
    · rw [heq, Window.write, dif_pos hfit] at h
      exact ⟨lt_size_of_write (d := { d with accesses := accesses }) h, hfit⟩
    · rw [heq, Window.write, dif_neg hfit] at h
      cases h
  · obtain ⟨hwhole, hrefused⟩ := not_or.mp hread
    simp only [overlay, if_neg hwhole, bind, EStateM.bind,
      read_of_refused (Classical.not_not.mp hrefused)] at h
    cases h

end Device

namespace FileSystem

def content (fs : FileSystem) : Content := ⟨fs.device.disk, fs.volume⟩

theorem onDevice_error {α : Type} {action : EStateM Failure Device α} {fs fs' : FileSystem}
    {failure : Failure} (h : onDevice action fs = .error failure fs') :
    ∃ device, action fs.device = .error failure device := by
  rw [onDevice] at h
  split at h
  · cases h
  · rename_i device heq
    cases h
    exact ⟨device, heq⟩

theorem onDevice_ok {α : Type} {action : EStateM Failure Device α} {a : α}
    {fs fs' : FileSystem} (h : onDevice action fs = .ok a fs') :
    action fs.device = .ok a fs'.device := by
  rw [onDevice] at h
  split at h <;> cases h
  assumption

/-- An effect that fails changes nothing, and one that succeeds makes its change. -/
theorem apply_spec (effect : Effect) {fs : FileSystem} (hfits : fs.volume.bitmap.Fits) :
    (∃ fs', apply effect fs = .ok () fs' ∧ fs'.device.faults = fs.device.faults ∧
      fs'.content = effect.change fs.content) ∨
    ∃ failure fs', apply effect fs = .error failure fs' ∧
      fs'.device.faults = fs.device.faults ∧ fs'.content = fs.content := by
  have hdevice : ∀ {action : EStateM Failure Device Unit} {disk : Disk},
      Device.Leaves action fs.device disk →
      (∃ fs', onDevice action fs = .ok () fs' ∧ fs'.device.faults = fs.device.faults ∧
        fs'.content = { fs.content with disk := disk }) ∨
      ∃ failure fs', onDevice action fs = .error failure fs' ∧
        fs'.device.faults = fs.device.faults ∧ fs'.content = fs.content := by
    rintro action disk (⟨d', heq, hfaults, rfl⟩ | ⟨failure, d', heq, hfaults, hdisk⟩)
    · exact .inl ⟨_, by rw [onDevice, heq], hfaults, rfl⟩
    · exact .inr ⟨_, _, by rw [onDevice, heq], hfaults, by rw [content, hdisk]; rfl⟩
  cases effect with
  | store id contents => exact hdevice (Device.write_leaves _ id contents)
  | overlay id start bytes => exact hdevice (Device.overlay_leaves _ id start bytes)
  | saveBitmap => exact hdevice (Device.write_leaves _ bitmapId fs.volume.bitmap.map)
  | mark ids used =>
    by_cases h : ∀ id ∈ ids, id < fs.volume.bitmap.blocks
    · refine .inl ⟨{ fs with volume := { fs.volume with
        bitmap := fs.volume.bitmap.marked ids used } }, ?_, rfl, rfl⟩
      simp only [apply, onBitmap, (Bitmap.markEach_spec hfits h used).1]
    · refine .inr ⟨.refused .io, fs, ?_, rfl, rfl⟩
      simp only [apply, onBitmap, Bitmap.markEach_of_out_of_range h used]
  | charge count =>
    simp only [apply, onUsage, Effect.change, content]
    cases fs.volume.usage.charge count with
    | ok usage => exact .inl ⟨_, rfl, rfl, rfl⟩
    | error failure => exact .inr ⟨_, _, rfl, rfl, rfl⟩
  | credit count =>
    simp only [apply, onUsage, Effect.change, content]
    cases fs.volume.usage.credit count with
    | ok usage => exact .inl ⟨_, rfl, rfl, rfl⟩
    | error failure => exact .inr ⟨_, _, rfl, rfl, rfl⟩

theorem apply_of_allowed {effect : Effect} {fs : FileSystem} (hfits : fs.volume.bitmap.Fits)
    (hserved : effect.Served fs.device.faults) (h : effect.Allowed fs.content) :
    ∃ fs', apply effect fs = .ok () fs' := by
  cases effect with
  | store id contents =>
    obtain ⟨d', heq⟩ := Device.write_of_allowed hserved h contents
    exact ⟨_, by rw [apply, onDevice, heq]⟩
  | overlay id start bytes =>
    obtain ⟨d', heq⟩ := Device.overlay_of_allowed hserved.1 hserved.2 h.1 h.2
    exact ⟨_, by rw [apply, onDevice, heq]⟩
  | saveBitmap =>
    obtain ⟨d', heq⟩ := Device.write_of_allowed hserved h fs.volume.bitmap.map
    refine ⟨{ fs with device := d' }, ?_⟩
    simp only [apply, onDevice, Bitmap.save, heq]
  | mark ids used =>
    exact ⟨_, by rw [apply, onBitmap, (Bitmap.markEach_spec hfits h used).1]⟩
  | charge count =>
    obtain ⟨usage, heq⟩ := h
    have heq' : fs.volume.usage.charge count = .ok usage := heq
    refine ⟨{ fs with volume := { fs.volume with usage := usage } }, ?_⟩
    simp only [apply, onUsage, heq']
  | credit count =>
    obtain ⟨usage, heq⟩ := h
    have heq' : fs.volume.usage.credit count = .ok usage := heq
    refine ⟨{ fs with volume := { fs.volume with usage := usage } }, ?_⟩
    simp only [apply, onUsage, heq']

theorem commit_cons_of_ok {effect : Effect} {fs fs' : FileSystem}
    (h : apply effect fs = .ok () fs') (rest : List Effect) :
    commit (effect :: rest) fs = commit rest fs' := by
  simp only [commit, bind, EStateM.bind, h]

theorem commit_cons_of_error {effect : Effect} {fs fs' : FileSystem} {failure : Failure}
    (h : apply effect fs = .error failure fs') (rest : List Effect) :
    commit (effect :: rest) fs = .error failure fs' := by
  simp only [commit, bind, EStateM.bind, h]

/-- Carrying effects out makes all of their changes, or fails where some effect is not served or not
allowed. -/
theorem commit_spec (effects : List Effect) {fs : FileSystem} (hfits : fs.volume.bitmap.Fits) :
    (∃ fs', commit effects fs = .ok () fs' ∧ fs'.device.faults = fs.device.faults ∧
      fs'.content = fs.content.after effects) ∨
    ∃ failure fs', commit effects fs = .error failure fs' ∧
      fs'.device.faults = fs.device.faults ∧
      Content.Stops fs.device.faults fs.content effects fs'.content := by
  induction effects generalizing fs with
  | nil => exact .inl ⟨fs, rfl, rfl, rfl⟩
  | cons effect rest ih =>
    rcases apply_spec effect hfits with ⟨fs₁, happly, hfaults, hcontent⟩ |
      ⟨failure, fs₁, happly, hfaults, hcontent⟩
    · have hfits₁ : fs₁.content.volume.bitmap.Fits := hcontent ▸ effect.fits_change hfits
      have hbind := commit_cons_of_ok happly rest
      rcases ih hfits₁ with ⟨fs₂, hrest, hfaults₂, hcontent₂⟩ |
        ⟨failure, fs₂, hrest, hfaults₂, hstops⟩
      · refine .inl ⟨fs₂, hbind.trans hrest, hfaults₂.trans hfaults, ?_⟩
        rw [hcontent₂, hcontent, Content.after_cons]
      · rw [hfaults, hcontent] at hstops
        exact .inr ⟨failure, fs₂, hbind.trans hrest, hfaults₂.trans hfaults, .later hstops⟩
    · refine .inr ⟨failure, fs₁, commit_cons_of_error happly rest, hfaults, ?_⟩
      rw [hcontent]
      refine .here fun hgranted => ?_
      obtain ⟨fs₂, happly₂⟩ := apply_of_allowed hfits hgranted.1 hgranted.2
      exact nomatch happly₂.symm.trans happly

theorem commit_of_allowed (effects : List Effect) {fs : FileSystem}
    (hfits : fs.volume.bitmap.Fits)
    (hserved : ∀ effect ∈ effects, effect.Served fs.device.faults)
    (h : Effect.AllAllowed effects fs.content) : ∃ fs', commit effects fs = .ok () fs' := by
  induction effects generalizing fs with
  | nil => exact ⟨fs, rfl⟩
  | cons effect rest ih =>
    obtain ⟨fs₁, happly⟩ := apply_of_allowed hfits (hserved effect List.mem_cons_self) h.1
    rcases apply_spec effect hfits with ⟨fs', happly', hfaults', hcontent⟩ |
      ⟨failure, fs', happly', -⟩
    · obtain rfl : fs₁ = fs' := by
        rw [happly] at happly'
        cases happly'
        rfl
      have hfits₁ : fs₁.content.volume.bitmap.Fits := hcontent ▸ effect.fits_change hfits
      have hserved₁ : ∀ e ∈ rest, e.Served fs₁.device.faults := fun e he => by
        rw [hfaults']
        exact hserved e (List.mem_cons_of_mem effect he)
      obtain ⟨fs₂, hrest⟩ := ih hfits₁ hserved₁ (by rw [hcontent]; exact h.2)
      exact ⟨fs₂, (commit_cons_of_ok happly rest).trans hrest⟩
    · rw [happly] at happly'
      cases happly'

theorem commit_allowed {effects : List Effect} {fs : FileSystem} (hfits : fs.volume.bitmap.Fits)
    (hserved : ∀ effect ∈ effects, effect.Served fs.device.faults)
    (h : Effect.AllAllowed effects fs.content) :
    ∃ fs', commit effects fs = .ok () fs' ∧ fs'.device.faults = fs.device.faults ∧
      fs'.content = fs.content.after effects := by
  obtain ⟨fs₁, hcommit⟩ := commit_of_allowed effects hfits hserved h
  rcases commit_spec effects hfits with ⟨fs₂, hcommit', hfaults₂, hcontent⟩ |
    ⟨failure, fs₂, hcommit', -⟩
  · exact ⟨fs₂, hcommit', hfaults₂, hcontent⟩
  · exact nomatch hcommit.symm.trans hcommit'

theorem allowed_of_apply {effect : Effect} {fs fs' : FileSystem}
    (h : apply effect fs = .ok () fs') : effect.Allowed fs.content := by
  cases effect with
  | store id contents => exact Device.lt_size_of_write (onDevice_ok h)
  | overlay id start bytes => exact Device.within_of_overlay (onDevice_ok h)
  | saveBitmap => exact Device.lt_size_of_write (onDevice_ok h)
  | mark ids used =>
    by_contra houtside
    have hrange : ¬ ∀ id ∈ ids, id < fs.volume.bitmap.blocks := houtside
    simp only [apply, onBitmap, Bitmap.markEach_of_out_of_range hrange] at h
    cases h
  | charge count =>
    simp only [apply, onUsage] at h
    split at h
    · exact ⟨_, ‹_›⟩
    · cases h
  | credit count =>
    simp only [apply, onUsage] at h
    split at h
    · exact ⟨_, ‹_›⟩
    · cases h

/-- Effects that are all carried out were allowed, and have made their changes. -/
theorem of_commit {effects : List Effect} {fs fs' : FileSystem} (hfits : fs.volume.bitmap.Fits)
    (h : commit effects fs = .ok () fs') :
    Effect.AllAllowed effects fs.content ∧ fs'.content = fs.content.after effects := by
  induction effects generalizing fs with
  | nil =>
    cases h
    exact ⟨trivial, rfl⟩
  | cons effect rest ih =>
    rcases apply_spec effect hfits with ⟨fs₁, happly, -, hcontent⟩ | ⟨failure, fs₁, happly, -⟩
    · have hfits₁ : fs₁.content.volume.bitmap.Fits := hcontent ▸ effect.fits_change hfits
      rw [commit_cons_of_ok happly] at h
      obtain ⟨hallowed, hafter⟩ := ih hfits₁ h
      rw [hcontent] at hallowed hafter
      exact ⟨⟨allowed_of_apply happly, hallowed⟩, hafter⟩
    · rw [commit_cons_of_error happly] at h
      cases h

theorem apply_of_failing {effect : Effect} {fs : FileSystem} {failure : Failure}
    (h : effect.Fails fs.device.faults fs.content failure) :
    ∃ fs', apply effect fs = .error failure fs' := by
  cases effect with
  | store id contents =>
    obtain ⟨rfl, hfault⟩ := h
    obtain ⟨d', heq⟩ := Device.write_of_failing hfault contents
    exact ⟨_, by rw [apply, onDevice, heq]⟩
  | overlay id start bytes =>
    obtain ⟨rfl, hfit, hfault⟩ := h
    obtain ⟨d', heq⟩ := Device.overlay_of_failing hfault hfit
    exact ⟨_, by rw [apply, onDevice, heq]⟩
  | mark ids used =>
    obtain ⟨rfl, id, hid, hpast⟩ := h
    have houtside : ¬ ∀ id ∈ ids, id < fs.volume.bitmap.blocks := fun hinside =>
      UInt32.not_le.mpr (hinside id hid) hpast
    refine ⟨fs, ?_⟩
    simp only [apply, onBitmap, Bitmap.markEach_of_out_of_range houtside]
  | saveBitmap =>
    obtain ⟨rfl, hfault⟩ := h
    obtain ⟨d', heq⟩ := Device.write_of_failing hfault fs.volume.bitmap.map
    refine ⟨{ fs with device := d' }, ?_⟩
    simp only [apply, onDevice, Bitmap.save, heq]
  | charge count =>
    have herror : fs.volume.usage.charge count = .error failure := h
    exact ⟨fs, by simp only [apply, onUsage, herror]⟩
  | credit count =>
    have herror : fs.volume.usage.credit count = .error failure := h
    exact ⟨fs, by simp only [apply, onUsage, herror]⟩

theorem commit_of_failing {first : List Effect} {effect : Effect} {fs : FileSystem}
    (hfits : fs.volume.bitmap.Fits) (hserved : ∀ e ∈ first, e.Served fs.device.faults)
    (hallowed : Effect.AllAllowed first fs.content) {failure : Failure}
    (hfailing : effect.Fails fs.device.faults (fs.content.after first) failure)
    (rest : List Effect) :
    ∃ fs', commit (first ++ effect :: rest) fs = .error failure fs' ∧
      fs'.device.faults = fs.device.faults ∧ fs'.content = fs.content.after first := by
  induction first generalizing fs with
  | nil =>
    obtain ⟨fs₁, happly⟩ := apply_of_failing hfailing
    rcases apply_spec effect hfits with ⟨fs₂, happly₂, -⟩ |
      ⟨failure₂, fs₂, happly₂, hfaults₂, hcontent₂⟩
    · exact nomatch happly.symm.trans happly₂
    · rw [happly] at happly₂
      cases happly₂
      exact ⟨fs₁, commit_cons_of_error happly rest, hfaults₂, hcontent₂⟩
  | cons other others ih =>
    obtain ⟨fs₁, happly⟩ := apply_of_allowed hfits (hserved other List.mem_cons_self) hallowed.1
    rcases apply_spec other hfits with ⟨fs₂, happly₂, hfaults₂, hcontent₂⟩ |
      ⟨failure₂, fs₂, happly₂, -⟩
    · rw [happly] at happly₂
      cases happly₂
      have hfits₁ : fs₁.content.volume.bitmap.Fits := hcontent₂ ▸ other.fits_change hfits
      obtain ⟨fs₃, hcommit, hfaults₃, hcontent₃⟩ := ih hfits₁
        (fun e he => by rw [hfaults₂]; exact hserved e (List.mem_cons_of_mem other he))
        (by rw [hcontent₂]; exact hallowed.2) (by rw [hfaults₂, hcontent₂]; exact hfailing)
      refine ⟨fs₃, ?_, hfaults₃.trans hfaults₂, by rw [hcontent₃, hcontent₂, Content.after_cons]⟩
      exact (commit_cons_of_ok happly (others ++ effect :: rest)).trans hcommit
    · exact nomatch happly.symm.trans happly₂

end FileSystem

end BlockFS
