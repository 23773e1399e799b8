import BlockFS.Proofs.Invariant.Concealment
import BlockFS.Proofs.Refinement.Isolation
import BlockFS.Proofs.Volume.Locality

/-!
What a device held before it was formatted is never seen. Two file systems are twins when they hold
the same in memory and, of what can be found out, the same on their disks; the rest of the disks and
their sizes may differ. Every call has the same outcome on twins and leaves twins, so from the same
format on all calls have the same outcomes.
-/

set_option autoImplicit false
set_option relaxedAutoImplicit false

namespace BlockFS

namespace Disk

variable {d d' : Disk}

theorem SameEntries.resolve_eq (h : SameEntries d d') (text : String) (depth : Nat) :
    d'.resolve text depth = d.resolve text depth := by
  cases hpath : Path.ofString text with
  | error reason => simp only [resolve, hpath, bind, Except.bind]
  | ok path =>
    rw [resolve_of_ofString hpath, resolve_of_ofString hpath, h.walk_eq reachable_root]

theorem Alike.filled_eq (h : Alike d d') (text : String) (offset : Nat) (buffer : List UInt8) :
    d'.filled text offset buffer = d.filled text offset buffer := by
  have hsame : SameTree d d' := h.sameTree
  rw [filled, filled, hsame.sameEntries.resolve_eq]
  cases hresolve : d.resolve text 0 with
  | error reason => dsimp only
  | ok id =>
    have hid := resolve_reachable hresolve
    have hinode : d'.inode id = d.inode id := hsame.inode_eq hid
    by_cases hregular : (d.inode id).isRegular = true
    · simp only [hinode, h.contents_eq hid hregular]
    · simp only [hinode, if_neg hregular]

theorem alike_laidOut (d d' : Disk) (diskSize now : UInt32) :
    Alike (d.laidOut diskSize now) (d'.laidOut diskSize now) := by
  intro block index hexposed
  obtain ⟨id, hid, hshows⟩ := hexposed
  obtain rfl := laidOut_reachable_iff.mp hid
  rw [laidOut_root] at hshows
  obtain ⟨-, hdirectory, hslots⟩ := emptyRoot_spec now
  cases hshows with
  | self =>
    rw [block_laidOut, block_laidOut, if_neg (by decide), if_pos rfl, if_neg (by decide),
      if_pos rfl]
  | slots =>
    rw [hslots, block_laidOut, block_laidOut, if_pos rfl, if_pos rfl]
  | data hregular => exact absurd hdirectory (Inode.not_isDirectory_of_isRegular hregular)

end Disk

namespace Content

variable {c c' : Content} {diskSize : UInt32}

/-- Deciding what a call changes reads the tree. -/
theorem Mounted.reads_effects (h : c.Mounted diskSize) (now : UInt32) (request : Request) :
    (request.effects c.volume now).Reads c.disk c.disk.Structural := by
  cases request with
  | create text permissions type owner =>
    exact Query.reads_map (h.reads_create now text permissions type owner)
  | deleteFile text => exact Query.reads_map (h.reads_deleteFile text)
  | deleteDirectory text => exact Query.reads_map (h.reads_deleteDirectory text)
  | rename source target => exact Query.reads_map (h.reads_rename source target)
  | setPermissions text mode => exact Query.reads_map (h.reads_setPermissions text mode)
  | setModified text mtime => exact Query.reads_map (h.reads_setModified text mtime)
  | truncate text length => exact Query.reads_map (h.reads_truncate text length)
  | write text offset bytes => exact Query.reads_map (h.reads_write now text offset bytes)
  | _ => exact Query.reads_pure []

theorem Alike.answer_eq {α : Type} (h : Alike c c') (hmounted : c.Mounted diskSize)
    (hmounted' : c'.Mounted diskSize) (question : Volume → Query α)
    (hreads : (question c.volume).Reads c.disk c.disk.Structural) :
    (question c'.volume).answer c'.disk = (question c.volume).answer c.disk := by
  rw [h.volume]
  apply hreads.answer_eq
  intro block hblock
  obtain ⟨place, hplace⟩ := hblock.referred
  exact ⟨hmounted'.lt_size (hmounted.consistent.bounds hmounted.low hplace).2,
    h.disk.sameTree hblock⟩

end Content

namespace FileSystem

variable {fs fs' : FileSystem} {diskSize : UInt32}

/-- Two file systems that were reached and are alike. -/
structure Twins (diskSize : UInt32) (fs fs' : FileSystem) : Prop where
  reached : Reached diskSize fs
  reached' : Reached diskSize fs'
  alike : Content.Alike fs.content fs'.content

namespace Twins

variable (h : Twins diskSize fs fs') (now : UInt32)

include h

theorem outcome_transacts {α : Type} {request : Request} {plan : Volume → Query (Update α)}
    {f : α → Response} (htransacts : Transacts now request plan f)
    (hreads : (plan fs.content.volume).Reads fs.content.disk fs.content.disk.Structural) :
    fs'.outcome now request = fs.outcome now request := by
  obtain ⟨hfaults, hsound⟩ := h.reached.sound
  obtain ⟨hfaults', hsound'⟩ := h.reached'.sound
  have hplan : (plan fs'.volume).answer fs'.device.disk = (plan fs.volume).answer fs.device.disk :=
    h.alike.answer_eq hsound.mounted hsound'.mounted plan hreads
  rw [FileSystem.outcome_transacts hsound hfaults htransacts,
    FileSystem.outcome_transacts hsound' hfaults' htransacts, hplan]

theorem outcome_asks {α : Type} {request : Request} {question : Volume → Query α} {f : α → Response}
    (hasks : Asks now request question f)
    (hreads : (question fs.content.volume).Reads fs.content.disk fs.content.disk.Structural) :
    fs'.outcome now request = fs.outcome now request := by
  obtain ⟨hfaults, hsound⟩ := h.reached.sound
  obtain ⟨hfaults', hsound'⟩ := h.reached'.sound
  have hanswer : (question fs'.volume).answer fs'.device.disk =
      (question fs.volume).answer fs.device.disk :=
    h.alike.answer_eq hsound.mounted hsound'.mounted question hreads
  rw [FileSystem.outcome_asks hfaults hasks, FileSystem.outcome_asks hfaults' hasks, hanswer]

theorem outcome_eq (request : Request) : fs'.outcome now request = fs.outcome now request := by
  obtain ⟨hfaults, hsound⟩ := h.reached.sound
  obtain ⟨hfaults', hsound'⟩ := h.reached'.sound
  have hmounted := hsound.mounted
  have hvolume : fs'.volume = fs.volume := h.alike.volume
  cases request with
  | lookup text => exact h.outcome_asks now (asks_lookup now text) (hmounted.reads_lookup text)
  | attributes text =>
    exact h.outcome_asks now (asks_attributes now text) (hmounted.reads_attributes text)
  | list text => exact h.outcome_asks now (asks_list now text) (hmounted.reads_list text)
  | create text permissions type owner =>
    exact h.outcome_transacts now (transacts_create now text permissions type owner)
      (hmounted.reads_create now text permissions type owner)
  | deleteFile text =>
    exact h.outcome_transacts now (transacts_deleteFile now text) (hmounted.reads_deleteFile text)
  | deleteDirectory text =>
    exact h.outcome_transacts now (transacts_deleteDirectory now text)
      (hmounted.reads_deleteDirectory text)
  | rename source target =>
    exact h.outcome_transacts now (transacts_rename now source target)
      (hmounted.reads_rename source target)
  | setPermissions text mode =>
    exact h.outcome_transacts now (transacts_setPermissions now text mode)
      (hmounted.reads_setPermissions text mode)
  | setModified text mtime =>
    exact h.outcome_transacts now (transacts_setModified now text mtime)
      (hmounted.reads_setModified text mtime)
  | truncate text length =>
    exact h.outcome_transacts now (transacts_truncate now text length)
      (hmounted.reads_truncate text length)
  | write text offset bytes =>
    exact h.outcome_transacts now (transacts_write now text offset bytes)
      (hmounted.reads_write now text offset bytes)
  | read text offset buffer =>
    rw [outcome_read hsound.mounted hfaults, outcome_read hsound'.mounted hfaults',
      h.alike.disk.filled_eq]
  | statistics =>
    show Except.ok (Response.statistics fs'.volume.usage.statistics) = _
    rw [hvolume]
    rfl
  | usage =>
    show Except.ok (Response.usage fs'.volume.usage) = _
    rw [hvolume]
    rfl
  | sync => rw [outcome_sync hfaults, outcome_sync hfaults']
  | remount => rw [outcome_remount hsound hfaults, outcome_remount hsound' hfaults']

theorem after (request : Request) :
    Twins diskSize (fs.after now request) (fs'.after now request) where
  reached := h.reached.called now request
  reached' := h.reached'.called now request
  alike := by
    obtain ⟨hfaults, hsound⟩ := h.reached.sound
    obtain ⟨hfaults', hsound'⟩ := h.reached'.sound
    have hplan : (request.effects fs'.volume now).answer fs'.device.disk =
        (request.effects fs.volume now).answer fs.device.disk :=
      h.alike.answer_eq hsound.mounted hsound'.mounted (fun v => request.effects v now)
        (hsound.mounted.reads_effects now request)
    rw [content_after hsound hfaults, content_after hsound' hfaults', hplan]
    cases heffects : (request.effects fs.volume now).answer fs.device.disk with
    | error failure => exact h.alike
    | ok effects => exact h.alike.after (hsound.safe.conceals_request heffects)

end Twins

/-! ### Runs -/

def afterAll (fs : FileSystem) : List (UInt32 × Request) → FileSystem
  | [] => fs
  | (now, request) :: rest => (fs.after now request).afterAll rest

def outcomes (fs : FileSystem) : List (UInt32 × Request) → List (Except Failure Response)
  | [] => []
  | (now, request) :: rest => fs.outcome now request :: (fs.after now request).outcomes rest

theorem Twins.outcomes_eq (h : Twins diskSize fs fs') (calls : List (UInt32 × Request)) :
    fs'.outcomes calls = fs.outcomes calls := by
  induction calls generalizing fs fs' with
  | nil => rfl
  | cons call rest ih =>
    obtain ⟨now, request⟩ := call
    rw [outcomes, outcomes, h.outcome_eq now request, ih (h.after now request)]

theorem Reached.block_afterAll (h : Reached diskSize fs) (calls : List (UInt32 × Request))
    {block : UInt32} (hblock : diskSize ≤ block) :
    (fs.afterAll calls).content.disk.block block = fs.content.disk.block block := by
  induction calls generalizing fs with
  | nil => rfl
  | cons call rest ih =>
    obtain ⟨now, request⟩ := call
    rw [afterAll, ih (h.called now request)]
    exact h.block_outside now request (.inr hblock)

theorem twins_of_format {now : UInt32} {first second first' second' : Device}
    {volume volume' : Volume} (hfaults : first.faults = Faults.none)
    (hfaults' : second.faults = Faults.none)
    (hformat : Device.format diskSize now first = .ok volume first')
    (hformat' : Device.format diskSize now second = .ok volume' second') :
    Twins diskSize ⟨first', volume⟩ ⟨second', volume'⟩ where
  reached := .formatted hfaults hformat
  reached' := .formatted hfaults' hformat'
  alike := by
    obtain ⟨-, -, hdisk, -⟩ := Device.of_format hformat
    obtain ⟨-, -, hdisk', -⟩ := Device.of_format hformat'
    have hsound := Device.sound_of_format hformat
    have hsound' := Device.sound_of_format hformat'
    have halike := Disk.alike_laidOut first.disk second.disk diskSize now
    rw [← hdisk, ← hdisk'] at halike
    have hmap : second'.disk.block bitmapId = first'.disk.block bitmapId := by
      rw [hdisk, hdisk', Disk.block_laidOut, Disk.block_laidOut]
      rfl
    obtain ⟨usage, -, hcounts⟩ := hsound.mounted.load_answer
    have hcounts' : usage.Counts ⟨second'.disk.block bitmapId, diskSize⟩ := by
      rw [hmap]
      exact hcounts
    refine ⟨(hsound'.volume_eq hcounts').trans ?_, halike⟩
    show (⟨_, ⟨second'.disk.block bitmapId, _⟩, _⟩ : Volume) = volume
    rw [hmap]
    exact (hsound.volume_eq hcounts).symm

end FileSystem

namespace Device

/-- A file system that is formatted on one of two devices cannot be told from one that is formatted
on the other: the same is mounted, and all calls have the same outcomes. None of them changes what
is behind the file system. -/
def Interchangeable (diskSize now : UInt32) (first second : Device) : Prop :=
  ∃ volume first' second', format diskSize now first = .ok volume first' ∧
    format diskSize now second = .ok volume second' ∧ ∀ calls : List (UInt32 × Request),
      (FileSystem.mk second' volume).outcomes calls = (FileSystem.mk first' volume).outcomes calls ∧
        ∀ block, diskSize ≤ block →
          ((FileSystem.mk first' volume).afterAll calls).device.disk.block block =
              first.disk.block block ∧
            ((FileSystem.mk second' volume).afterAll calls).device.disk.block block =
              second.disk.block block

/-- Devices that can hold a file system are interchangeable, whatever they held before and however
large they are. -/
theorem interchangeable {diskSize now : UInt32} {first second : Device}
    (hlow : firstFreeId ≤ diskSize) (hhigh : diskSize.toNat ≤ maxDiskBlocks)
    (hfaults : first.faults = Faults.none) (hfaults' : second.faults = Faults.none)
    (hsize : diskSize.toNat ≤ first.disk.size) (hsize' : diskSize.toNat ≤ second.disk.size) :
    Interchangeable diskSize now first second := by
  obtain ⟨volume, first', hformat⟩ :=
    format_ok hfaults (Superblock.checkFit_of_le hlow hhigh hsize) now
  obtain ⟨volume', second', hformat'⟩ :=
    format_ok hfaults' (Superblock.checkFit_of_le hlow hhigh hsize') now
  have htwins := FileSystem.twins_of_format hfaults hfaults' hformat hformat'
  obtain rfl : volume' = volume := htwins.alike.volume
  refine ⟨volume', first', second', hformat, hformat', fun calls => ⟨htwins.outcomes_eq calls, ?_⟩⟩
  intro block hblock
  have hfirst := htwins.reached.block_afterAll calls hblock
  have hsecond := htwins.reached'.block_afterAll calls hblock
  have hlow := UInt32.le_trans (sound_of_format hformat).mounted.low hblock
  exact ⟨hfirst.trans (block_of_format hformat hlow),
    hsecond.trans (block_of_format hformat' hlow)⟩

/-- A blank device, and a larger one on which a block that is not formatted was written. -/
theorem interchangeable_with_leftovers : Interchangeable 16 0 (ofDisk (Disk.blank 16))
    (ofDisk ((Disk.blank 20).set 5 (Block.padded [1, 2, 3]))) :=
  interchangeable (by decide) (by decide) rfl rfl (by decide) (by decide)

end Device

end BlockFS
