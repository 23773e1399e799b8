import BlockFS.Proofs.Refinement.Splitting

/-!
Cutting a file. Cutting it twice is cutting it to the smaller length, down to the last byte of the
device; and cutting it back to where it ended takes back what was written behind its end: the blocks
that were taken for it are free again, and the file is as it was but for its time.
-/

set_option autoImplicit false
set_option relaxedAutoImplicit false

namespace BlockFS

theorem Content.block_after_cut (c : Content) {id block : UInt32} {contents : Block}
    {blocks : List UInt32} (hblock : block ≠ bitmapId) :
    (c.after (.store id contents :: Effect.deallocate blocks)).disk.block block =
      if id = block then contents else c.disk.block block := by
  rw [after_cons, block_after, Effect.change, Disk.block_set]
  intro effect heffect htarget
  exact hblock (Effect.bookkeeping_deallocate heffect block htarget)

namespace FileSystem

/-- The bitmap, the counters and a file are again what they were, but for the time of the file. -/
structure RestoredBut (fs fs' : FileSystem) (text : String) (path : Path) (id : UInt32) :
    Prop where
  leads : fs'.FileAt text path id
  saved : fs'.content.disk.block bitmapId = fs.content.disk.block bitmapId
  bitmap : fs'.volume.bitmap = fs.volume.bitmap
  usage : fs'.volume.usage = fs.volume.usage
  bytes : (fs'.file id).bytes = (fs.file id).bytes
  inode : fs'.content.disk.inode id =
    { fs.content.disk.inode id with mtime := (fs'.content.disk.inode id).mtime }

/-- Cutting a file composes, and takes back what was written behind its end. -/
structure CutsBack (fs : FileSystem) (text : String) (path : Path) (id : UInt32) : Prop where
  twice : ∀ {now length length'}, length ≤ length' → length' ≤ (fs.file id).bytes.length →
    ∃ fs₁ fs₂ fs', perform now (.truncate text length') fs = .ok .done fs₁ ∧
      perform now (.truncate text length) fs₁ = .ok .done fs₂ ∧
      perform now (.truncate text length) fs = .ok .done fs' ∧ fs'.content.Identical fs₂.content
  undoes : ∀ {now later bytes response fs₁},
    perform now (.write text (fs.file id).bytes.length bytes) fs = .ok response fs₁ →
    ∃ fs₂, perform later (.truncate text (fs.file id).bytes.length) fs₁ = .ok .done fs₂ ∧
      fs.RestoredBut fs₂ text path id

section

variable {fs fs' : FileSystem} {diskSize now : UInt32} (hsound : fs.content.Sound diskSize)
  (hfaults : fs.device.faults = Faults.none) {text : String} {path : Path} {id : UInt32}
  (hfile : fs.FileAt text path id)

include hsound hfaults hfile

theorem exists_truncate (now : UInt32) {length : Nat}
    (hlength : length ≤ (fs.file id).bytes.length) :
    ∃ fs', perform now (.truncate text length) fs = .ok .done fs' ∧
      fs'.content = fs.content.after (.store id ((fs.content.disk.inode id).shrunk length).encode ::
        Effect.deallocate ((fs.content.disk.inode id).dropped length)) := by
  obtain ⟨hresolve, hregular⟩ := hfile.resolve hsound
  rw [length_bytes] at hlength
  exact perform_of_granted hsound hfaults (transacts_truncate now text length)
    (hsound.mounted.truncate_answer hresolve hregular hlength)

theorem truncate_leaves {length : Nat} {response : Response}
    (hperform : perform now (.truncate text length) fs = .ok response fs') :
    fs'.FileAt text path id ∧ (fs'.file id).bytes = (fs.file id).bytes.take length := by
  obtain ⟨hresolve, hregular⟩ := hfile.resolve hsound
  obtain ⟨-, -, hupdates⟩ := truncate_refines hsound hfaults hresolve hregular hperform
  refine ⟨⟨hfile.spelled, ?_, ?_⟩, ?_⟩
  · rw [hupdates.nodes]
    exact hfile.walk
  · rw [hupdates.nodes]
    exact hfile.file
  · rw [hupdates.file, Int.toNat_natCast]

theorem truncate_twice {length length' : Nat} (hle : length ≤ length')
    (hlength : length' ≤ (fs.file id).bytes.length) :
    ∃ fs₁ fs₂ fs', perform now (.truncate text length') fs = .ok .done fs₁ ∧
      perform now (.truncate text length) fs₁ = .ok .done fs₂ ∧
      perform now (.truncate text length) fs = .ok .done fs' ∧
      fs'.content.Identical fs₂.content := by
  obtain ⟨hresolve, -⟩ := hfile.resolve hsound
  have hid := hsound.mounted.ne_bitmap (Disk.resolve_reachable hresolve).structural
  obtain ⟨fs₁, hfirst, hcontent₁⟩ := exists_truncate hsound hfaults hfile now hlength
  obtain ⟨hfaults₁, hsound₁⟩ := sound_of_perform hsound hfaults hfirst
  obtain ⟨hfile₁, hbytes⟩ := truncate_leaves hsound hfaults hfile hfirst
  have hshorter : length ≤ (fs₁.file id).bytes.length := by
    rw [hbytes, List.length_take]
    omega
  obtain ⟨fs₂, hsecond, hcontent₂⟩ := exists_truncate hsound₁ hfaults₁ hfile₁ now hshorter
  obtain ⟨fs', hdirect, hcontent'⟩ :=
    exists_truncate hsound hfaults hfile now (Nat.le_trans hle hlength)
  obtain ⟨-, hsound₂⟩ := sound_of_perform hsound₁ hfaults₁ hsecond
  obtain ⟨-, hsound'⟩ := sound_of_perform hsound hfaults hdirect
  refine ⟨fs₁, fs₂, fs', hfirst, hsecond, hdirect, hsound'.identical hsound₂ ?_⟩
  have hinode : fs₁.content.disk.inode id = (fs.content.disk.inode id).shrunk length' := by
    rw [Disk.inode, hcontent₁, Content.block_after_cut _ hid, if_pos rfl, Inode.decode_encode]
  intro block hblock
  rw [hcontent₂, hcontent', Content.block_after_cut _ hblock, Content.block_after_cut _ hblock,
    hinode, Inode.shrunk_shrunk _ hle, hcontent₁, Content.block_after_cut _ hblock]
  split <;> rfl

omit hfaults hfile in
/-- Cutting a file back undoes a change of its inode that does not show in front of its old end. -/
theorem restored_of_truncate {fs₁ : FileSystem} (hsound₁ : fs₁.content.Sound diskSize)
    (hfaults₁ : fs₁.device.faults = Faults.none) (hfile₁ : fs₁.FileAt text path id) {j : Inode}
    (hrewrites : Disk.Rewrites fs.content.disk fs₁.content.disk id j)
    (hshrunk : j.shrunk (fs.content.disk.inode id).length =
      { fs.content.disk.inode id with mtime := j.mtime })
    (hbytes : (fs.file id).bytes <+: (fs₁.file id).bytes) :
    ∃ fs₂, perform now (.truncate text (fs.file id).bytes.length) fs₁ = .ok .done fs₂ ∧
      fs.RestoredBut fs₂ text path id := by
  have hid := hsound.mounted.ne_bitmap hrewrites.reachable.structural
  obtain ⟨fs₂, hperform, hcontent⟩ :=
    exists_truncate hsound₁ hfaults₁ hfile₁ now hbytes.length_le
  obtain ⟨-, hsound₂⟩ := sound_of_perform hsound₁ hfaults₁ hperform
  obtain ⟨hfile₂, hcut⟩ := truncate_leaves hsound₁ hfaults₁ hfile₁ hperform
  have hinode : fs₂.content.disk.inode id =
      { fs.content.disk.inode id with mtime := j.mtime } := by
    rw [Disk.inode, hcontent, Content.block_after_cut _ hid, if_pos rfl, Inode.decode_encode,
      hrewrites.inode, length_bytes, hshrunk]
  have hundone : Disk.Rewrites fs.content.disk fs₂.content.disk id
      { fs.content.disk.inode id with mtime := j.mtime } := by
    refine ⟨hrewrites.reachable, hinode, rfl, fun _ => rfl, fun {block} hblock hne => ?_⟩
    rw [hcontent, Content.block_after_cut _ (hsound.mounted.ne_bitmap hblock), if_neg (Ne.symm hne),
      hrewrites.others hblock hne]
  obtain ⟨hsaved, hvolume⟩ := hsound.determined hsound₂ fun _ =>
    hsound.mounted.consistent.inUse_of_sameShape hsound.mounted.low hundone
      (Inode.modified_sameShape _ j.mtime)
  refine ⟨fs₂, hperform, hfile₂, hsaved, congrArg Volume.bitmap hvolume,
    congrArg Volume.usage hvolume, ?_, ?_⟩
  · rw [hcut]
    exact (List.prefix_iff_eq_take.mp hbytes).symm
  · rw [hinode]

theorem truncate_undoes {later : UInt32} {bytes : List UInt8} {response : Response}
    {fs₁ : FileSystem}
    (hperform : perform now (.write text (fs.file id).bytes.length bytes) fs = .ok response fs₁) :
    ∃ fs₂, perform later (.truncate text (fs.file id).bytes.length) fs₁ = .ok .done fs₂ ∧
      fs.RestoredBut fs₂ text path id := by
  obtain ⟨hresolve, hregular⟩ := hfile.resolve hsound
  have hid := Disk.resolve_reachable hresolve
  have hformed := hsound.mounted.consistent.formed hid
  obtain ⟨hfaults₁, hsound₁⟩ := sound_of_perform hsound hfaults hperform
  obtain ⟨hfile₁, -⟩ := write_leaves hsound hfaults hfile hperform
  by_cases hbytes : bytes = []
  · subst hbytes
    obtain ⟨-, hsame⟩ := content_of_write_nil hsound hfaults hfile hperform
    refine restored_of_truncate hsound hsound₁ hfaults₁ hfile₁
      (j := fs.content.disk.inode id) ?_ hformed.shrunk_length ?_
    · rw [hsame]
      exact ⟨hid, rfl, rfl, fun _ => rfl, fun _ _ => rfl⟩
    · have hkept : (fs₁.file id).bytes = (fs.file id).bytes := by rw [file, file, hsame]
      exact ⟨[], by rw [List.append_nil, hkept]⟩
  · obtain ⟨blocks, -, hextends, hcontent⟩ := write_extends hsound hfaults hfile hbytes hperform
    refine restored_of_truncate hsound hsound₁ hfaults₁ hfile₁
      (j := (fs.content.disk.inode id).written now ((fs.file id).bytes.length + bytes.length)
        blocks) ?_ (hformed.shrunk_written now _ blocks) ?_
    · rw [hcontent]
      exact hextends.inode_after_writing hsound.mounted now
    · obtain ⟨-, -, hupdates⟩ :=
        write_refines hsound hfaults hresolve hbytes hperform
      rw [hupdates.file, List.take_length, List.append_assoc]
      exact List.prefix_append _ _

end

/-- Whatever calls came before, cutting a file composes and takes back what was written behind its
end. -/
theorem Reached.cuts_back {diskSize : UInt32} {fs : FileSystem} (h : Reached diskSize fs)
    {text : String} {path : Path} {id : UInt32} (hfile : fs.FileAt text path id) :
    fs.CutsBack text path id where
  twice := truncate_twice h.sound.2 h.sound.1 hfile
  undoes := truncate_undoes h.sound.2 h.sound.1 hfile

/-- Bytes are written to a new file, and taken back. -/
theorem cuts_back_after_create : ∃ volume device fs id,
    Device.format 16 0 (Device.ofDisk (Disk.blank 16)) = .ok volume device ∧
      perform 1 (.create "/a" 0o644 .regular ⟨0, 0⟩) ⟨device, volume⟩ = .ok (.inode id) fs ∧
      fs.FileAt "/a" [[97]] id ∧ fs.CutsBack "/a" [[97]] id ∧
      ∃ response fs₁, perform 2 (.write "/a" (fs.file id).bytes.length [7]) fs =
        .ok response fs₁ := by
  obtain ⟨volume, device, fs, id, hformat, hperform, hafter, hfile, hempty, hfree⟩ :=
    exists_created_file
  have hroom : ∃ response fs₁, perform 2 (.write "/a" (fs.file id).bytes.length [7]) fs =
      .ok response fs₁ :=
    (exists_write_iff hafter.sound.2 hafter.sound.1 hfile [7]).mpr
      (by rw [hempty, hfree]; decide)
  exact ⟨volume, device, fs, id, hformat, hperform, hfile, hafter.cuts_back hfile, hroom⟩

end FileSystem

end BlockFS
