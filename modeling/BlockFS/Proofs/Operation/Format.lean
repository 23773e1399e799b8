import BlockFS.Proofs.Invariant.Step
import BlockFS.Proofs.Operation.Mount

/-!
Laying out an empty file system. It succeeds on every device that is large enough and does not fail,
and when it succeeds the disk holds a tree of nothing but the root, and what is mounted is sound.
-/

set_option autoImplicit false
set_option relaxedAutoImplicit false

namespace BlockFS

namespace Disk

def withBlocks (d : Disk) (number : Nat) : List Block → Disk
  | [] => d
  | contents :: rest => (d.set (UInt32.ofNat number) contents).withBlocks (number + 1) rest

/-- The disk with an empty file system on its first blocks. -/
def laidOut (d : Disk) (diskSize now : UInt32) : Disk :=
  d.withBlocks superblockId.toNat (Volume.emptyBlocks diskSize now)

theorem size_withBlocks (d : Disk) (number : Nat) (blocks : List Block) :
    (d.withBlocks number blocks).size = d.size := by
  induction blocks generalizing d number with
  | nil => rfl
  | cons contents rest ih => rw [withBlocks, ih, size_set]

theorem block_laidOut (d : Disk) (diskSize now block : UInt32) :
    (d.laidOut diskSize now).block block =
      if Volume.rootSlotsId = block then Block.zero
      else if rootId = block then (Volume.emptyRoot now).encode
      else if bitmapId = block then Volume.emptyMap
      else if superblockId = block then (Superblock.ofSize diskSize).encode
      else d.block block := by
  have hsets : d.laidOut diskSize now =
      (((d.set superblockId (Superblock.ofSize diskSize).encode).set bitmapId Volume.emptyMap).set
        rootId (Volume.emptyRoot now).encode).set Volume.rootSlotsId Block.zero := rfl
  rw [hsets, block_set, block_set, block_set, block_set]

end Disk

private theorem state_bind_eq_ok {σ α β : Type} {x : EStateM Failure σ α}
    {f : α → EStateM Failure σ β} {s s' : σ} {b : β} :
    (x >>= f) s = .ok b s' ↔ ∃ a s₁, x s = .ok a s₁ ∧ f a s₁ = .ok b s' := by
  simp only [bind, EStateM.bind]
  cases x s with
  | ok a s₁ => exact ⟨fun h => ⟨a, s₁, rfl, h⟩, fun ⟨_, _, ha, h⟩ => by cases ha; exact h⟩
  | error failure s₁ => exact ⟨nofun, fun ⟨_, _, h, _⟩ => nomatch h⟩

private theorem keeping_ofRefusal_eq_ok {σ α : Type} {result : Except Error α} {s s' : σ} {a : α}
    (h : Failure.keeping (Failure.ofRefusal result) s = .ok a s') : result = .ok a ∧ s = s' := by
  cases result with
  | error reason => cases h
  | ok =>
    cases h
    exact ⟨rfl, rfl⟩

theorem Query.answer_of_run {α : Type} {q : Query α} {d d' : Device} {a : α}
    (h : q.run d = .ok a d') :
    q.answer d.disk = .ok a ∧ d'.faults = d.faults ∧ d'.disk = d.disk := by
  obtain ⟨accesses, hrun | hrun⟩ := q.run_eq_answer_or_io d
  · rw [h] at hrun
    cases hanswer : q.answer d.disk with
    | error failure =>
      rw [hanswer] at hrun
      cases hrun
    | ok other =>
      rw [hanswer] at hrun
      cases hrun
      exact ⟨rfl, rfl, rfl⟩
  · rw [h] at hrun
    cases hrun

namespace Device

variable {d d' : Device}

theorem flush_ok (h : flush d = .ok () d') : d'.faults = d.faults ∧ d'.disk = d.disk := by
  rw [flush] at h
  split at h
  · cases h
  · cases h
    exact ⟨rfl, rfl⟩

private theorem writeBlocks_cons {number : Nat} (h : number < UInt32.size) (contents : Block)
    (rest : List Block) : writeBlocks number (contents :: rest) = (do
      write (UInt32.ofNat number) contents
      writeBlocks (number + 1) rest) := if_pos h

private theorem writeBlocks_overflow {number : Nat} (h : ¬ number < UInt32.size) (contents : Block)
    (rest : List Block) (d : Device) :
    writeBlocks number (contents :: rest) d = .error .overflow d := by
  have hstop : writeBlocks number (contents :: rest) = fun d => .error .overflow d := if_neg h
  rw [hstop]

theorem writeBlocks_ok {number : Nat} {blocks : List Block}
    (h : writeBlocks number blocks d = .ok () d') :
    d'.faults = d.faults ∧ d'.disk = d.disk.withBlocks number blocks := by
  induction blocks generalizing d number with
  | nil =>
    cases h
    exact ⟨rfl, rfl⟩
  | cons contents rest ih =>
    by_cases hnumber : number < UInt32.size
    · rw [writeBlocks_cons hnumber] at h
      obtain ⟨a, d₁, hwrite, h⟩ := state_bind_eq_ok.mp h
      rcases write_leaves d (UInt32.ofNat number) contents with ⟨d₂, hwrite', hfaults, hdisk⟩ |
        ⟨failure, d₂, hwrite', -, -⟩
      · rw [hwrite'] at hwrite
        cases hwrite
        obtain ⟨hfaults', hdisk'⟩ := ih h
        exact ⟨hfaults'.trans hfaults, by rw [hdisk', hdisk]; rfl⟩
      · exact nomatch hwrite.symm.trans hwrite'
    · exact nomatch h.symm.trans (writeBlocks_overflow hnumber contents rest d)

theorem writeBlocks_of_faultless (number : Nat) (blocks : List Block)
    (hfaults : d.faults = Faults.none) (hsize : number + blocks.length ≤ d.disk.size)
    (hlimit : number + blocks.length ≤ UInt32.size) :
    ∃ d', writeBlocks number blocks d = .ok () d' := by
  induction blocks generalizing d number with
  | nil => exact ⟨d, rfl⟩
  | cons contents rest ih =>
    rw [List.length_cons] at hsize hlimit
    have hnumber : (UInt32.ofNat number).toNat = number := UInt32.toNat_ofNat_of_lt' (by omega)
    have hgranted : ¬ d.RefusesWrite (UInt32.ofNat number) := 
      not_refusesWrite (by simp [hfaults, Faults.none]) (by omega)
    have hwrite := write_of_granted hgranted contents
    obtain ⟨d', hrest⟩ := ih (number + 1)
      (d := { d with
        disk := d.disk.set (UInt32.ofNat number) contents
        accesses := d.accesses + 1
        completed := d.completed + 1 }) hfaults (by rw [Disk.size_set]; omega) (by omega)
    exact ⟨d', by rw [writeBlocks_cons (by omega), state_bind_eq_ok]; exact ⟨_, _, hwrite, hrest⟩⟩

theorem of_format {diskSize now : UInt32} {volume : Volume}
    (h : format diskSize now d = .ok volume d') :
    Superblock.checkFit diskSize d.disk.size = .ok () ∧ d'.faults = d.faults ∧
      d'.disk = d.disk.laidOut diskSize now ∧
      (Volume.load d.disk.size).answer d'.disk = .ok volume := by
  obtain ⟨d₀, d₀', hget, hchecked⟩ := state_bind_eq_ok.mp h
  cases hget
  obtain ⟨⟨⟩, d₁, hfit, hwritten⟩ := state_bind_eq_ok.mp hchecked
  obtain ⟨⟨⟩, d₂, hwrite, hflushed⟩ := state_bind_eq_ok.mp hwritten
  obtain ⟨⟨⟩, d₃, hflush, hmount⟩ := state_bind_eq_ok.mp hflushed
  obtain ⟨hfit', rfl⟩ := keeping_ofRefusal_eq_ok hfit
  obtain ⟨hfaults₂, hdisk₂⟩ := writeBlocks_ok hwrite
  obtain ⟨hfaults₃, hdisk₃⟩ := flush_ok hflush
  obtain ⟨hanswer, hfaults, hdisk⟩ := Query.answer_of_run hmount
  have hsize : d₃.disk.size = d.disk.size := by rw [hdisk₃, hdisk₂, Disk.size_withBlocks]
  rw [hsize, ← hdisk] at hanswer
  exact ⟨hfit', hfaults.trans (hfaults₃.trans hfaults₂), hdisk.trans (hdisk₃.trans hdisk₂),
    hanswer⟩

theorem format_of_faultless {diskSize now : UInt32} (hfaults : d.faults = Faults.none)
    (hfit : Superblock.checkFit diskSize d.disk.size = .ok ()) (hsize : 4 ≤ d.disk.size)
    {volume : Volume}
    (hload : (Volume.load d.disk.size).answer (d.disk.laidOut diskSize now) = .ok volume) :
    ∃ d', format diskSize now d = .ok volume d' := by
  obtain ⟨d₁, hwrite⟩ := writeBlocks_of_faultless superblockId.toNat
    (Volume.emptyBlocks diskSize now) hfaults hsize (show 4 ≤ UInt32.size by decide)
  obtain ⟨hfaults₁, hdisk₁⟩ := writeBlocks_ok hwrite
  have hnone : d₁.faults = Faults.none := hfaults₁.trans hfaults
  have hflush : flush d₁ = .ok () { d₁ with flushes := d₁.flushes + 1 } := by
    rw [flush, hnone]
    rfl
  have hsize₁ : d₁.disk.size = d.disk.size := by rw [hdisk₁, Disk.size_withBlocks]
  obtain ⟨accesses, hrun⟩ := (Volume.load d.disk.size).run_eq_answer
    { d₁ with flushes := d₁.flushes + 1 } fun _ _ => by rw [hnone]; rfl
  have hload₁ : (Volume.load d.disk.size).answer d₁.disk = .ok volume := by
    rw [hdisk₁]
    exact hload
  refine ⟨{ d₁ with flushes := d₁.flushes + 1, accesses := accesses }, ?_⟩
  refine state_bind_eq_ok.mpr ⟨d, d, rfl, state_bind_eq_ok.mpr ⟨(), d, by rw [hfit]; rfl,
    state_bind_eq_ok.mpr ⟨(), d₁, hwrite, state_bind_eq_ok.mpr ⟨(), _, hflush, ?_⟩⟩⟩⟩
  show (Volume.load d₁.disk.size).run { d₁ with flushes := d₁.flushes + 1 } = _
  rw [hsize₁]
  refine hrun.trans ?_
  show Failure.keeping ((Volume.load d.disk.size).answer d₁.disk) _ = _
  rw [hload₁]
  rfl

end Device

end BlockFS
