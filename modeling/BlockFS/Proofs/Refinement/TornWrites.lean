import BlockFS.Proofs.Data.Torn
import BlockFS.Proofs.Invariant.Safety
import BlockFS.Proofs.Refinement.Isolation
import BlockFS.Proofs.Refinement.Space

/-!
Writes under faults. A write that fails, whichever reads and writes of the device fail during the
call, has done no harm outside its range: once the device works again, the file has its old bytes
but for some blocks of the range from the first on, which have the new ones, and everything else is
seen as before.
-/

set_option autoImplicit false
set_option relaxedAutoImplicit false

namespace BlockFS

theorem Disk.keeps_of_file {d d' : Disk} {diskSize id : UInt32} {path way : Path}
    (hd : d.Consistent diskSize) (hpath : ∀ name ∈ path, Path.IsComponent name)
    (hway : ∀ name ∈ way, Path.IsComponent name) (hwalk : d.walk rootId path = .ok id)
    (hfile : (d.inode id).isDirectory = false) (hentries : SameEntries d d')
    (htouches : TouchesOnly d d' id) (hne : way ≠ path) :
    Keeps d d' way fun name => way ++ [name] = path := by
  by_cases hbelow : path <+: way
  · -- Nothing is below a file, before or afterwards.
    obtain ⟨rest, rfl⟩ := hbelow
    have hblocked : d.walk rootId (path ++ rest) = .error .notADirectory := by
      rw [walk_append, hwalk]
      cases rest with
      | nil => exact absurd (List.append_nil path) hne
      | cons name rest =>
        show d.walk id (name :: rest) = _
        rw [walk, if_neg (by rw [hfile]; decide)]
    have hnowhere {other : UInt32} : d.walk rootId (path ++ rest) ≠ .ok other := by
      intro hother
      cases hblocked.symm.trans hother
    exact ⟨hentries.walk_eq reachable_root _, fun h => absurd h hnowhere,
      fun h _ => absurd h hnowhere, fun h _ => absurd h hnowhere⟩
  · have havoid : ∀ target ∈ [path], ¬ target <+: way := fun target htarget =>
      List.mem_singleton.mp htarget ▸ hbelow
    have hkeeps := keeps_of_inode hd hway havoid (List.mem_singleton_self path) hpath hwalk
      hentries htouches
    exact hkeeps.mono fun name => List.mem_singleton.mp

namespace FileSystem

variable {fs fs' : FileSystem} {diskSize now : UInt32}

/-- What a write that failed has left for callers to see. -/
structure Contained (fs fs' : FileSystem) (text : String) (path : Path) (id : UInt32)
    (offset : Nat) (bytes : List UInt8) : Prop where
  file : ∃ after, Torn (fs.file id).bytes after offset bytes ∧
    (∀ now, ∃ attributes, fs'.outcome now (.attributes text) = .ok (.attributes attributes) ∧
      attributes.inode = id ∧ attributes.type = .regular ∧ attributes.size = after.length) ∧
    ∀ now start buffer count, count = min buffer.length (after.length - start) →
      fs'.outcome now (.read text start buffer) =
        .ok (.filled count ((after.drop start).take count ++ buffer.drop count))
  elsewhere : ∀ {other way}, Path.ofString other = .ok way → way ≠ path →
    fs.SeesSame fs' other fun name => way ++ [name] = path
  /-- Listings show the same names in the same order. -/
  names : ∀ {now other before after}, fs.outcome now (.list other) = .ok (.listing before) →
    fs'.outcome now (.list other) = .ok (.listing after) →
      after.map Prod.fst = before.map Prod.fst

theorem listing_of_outcome (hmounted : fs.content.Mounted diskSize)
    (hfaults : fs.device.faults = Faults.none) {text : String}
    {listing : List (String × Attributes)}
    (h : fs.outcome now (.list text) = .ok (.listing listing)) :
    ∃ path id, Path.ofString text = .ok path ∧ fs.content.disk.walk rootId path = .ok id ∧
      (fs.content.disk.inode id).isDirectory = true ∧ listing.map Prod.fst =
        (fs.content.disk.slotEntries id).entries.map fun entry =>
          String.ofList (Utf8.decode entry.1) := by
  rw [outcome_asks hfaults (asks_list now text)] at h
  cases htext : Path.ofString text with
  | error reason =>
    have hlocate : (fs.volume.locate text 0).answer fs.device.disk = .error (.refused reason) :=
      hmounted.locate_answer_error (by rw [Disk.resolve, htext]; rfl)
    rw [Volume.list, Query.answer_bind_of_error hlocate] at h
    cases h
  | ok path =>
    rw [show (fs.volume.list text).answer fs.device.disk = _ from hmounted.list_eq htext] at h
    cases hwalk : fs.content.disk.walk rootId path with
    | error reason =>
      rw [hwalk] at h
      cases h
    | ok id =>
      rw [hwalk] at h
      simp only [bind, Except.bind] at h
      by_cases hdirectory : (fs.content.disk.inode id).isDirectory = true
      · rw [if_pos hdirectory] at h
        obtain rfl := Response.listing.inj (Except.ok.inj h)
        refine ⟨path, id, rfl, hwalk, hdirectory, ?_⟩
        rw [Disk.listing_eq, List.map_map, List.map_map]
        rfl
      · rw [if_neg hdirectory] at h
        cases h

/-- Wherever a write under faults ends, only its file has been written, and it is torn at worst. -/
theorem Reached.write_ends (h : Reached diskSize fs) (faults : Faults) {text : String} {path : Path}
    {id : UInt32} {offset : Nat} {bytes : List UInt8} {failure : Failure}
    (hfile : fs.FileAt text path id)
    (hperform : perform now (.write text offset bytes) (fs.withFaults faults) =
      .error failure fs') :
    Disk.SameEntries fs.content.disk fs'.content.disk ∧
      Disk.TouchesOnly fs.content.disk fs'.content.disk id ∧
      (fs'.content.disk.inode id).isRegular = true ∧
      Torn (fs.file id).bytes (fs'.file id).bytes offset bytes := by
  obtain ⟨-, hsound⟩ := h.sound
  obtain ⟨htext, hwalk, hregular⟩ := (fileAt_iff hsound.mounted).mp hfile
  have hresolve := (Disk.resolve_zero htext).trans hwalk
  have hsame (hcontent : fs'.content = fs.content) :
      Disk.SameEntries fs.content.disk fs'.content.disk ∧
        Disk.TouchesOnly fs.content.disk fs'.content.disk id ∧
        (fs'.content.disk.inode id).isRegular = true ∧
        Torn (fs.file id).bytes (fs'.file id).bytes offset bytes := by
    rw [file, file, hcontent]
    exact ⟨⟨fun _ => rfl, fun _ _ => rfl⟩, fun _ _ _ _ => rfl, hregular, Torn.refl _ _ _⟩
  have htransact := transact_of_perform (transacts_write now text offset bytes) hperform
  have hfits : (fs.withFaults faults).volume.bitmap.Fits := hsound.mounted.fits
  have hending := transact_ending (fun v => v.write now text offset bytes) hfits
  rw [htransact] at hending
  cases hending with
  | refused hcontent => exact hsame hcontent.2
  | stopped hplan hfaults hstops =>
    obtain ⟨other, hother, -, -, hcases⟩ := hsound.safe.of_write hplan
    obtain rfl := Except.ok.inj (hresolve.symm.trans hother)
    obtain ⟨-, rfl⟩ | ⟨-, blocks, -, hextends, rfl⟩ := hcases
    · obtain ⟨count, hcontent⟩ := hstops.ends.exists_take
      exact hsame (by rw [hcontent, List.take_nil]; rfl)
    · exact hextends.ends hsound.mounted now hstops.ends

/-- A write that fails is contained, whatever came before it and whichever accesses of the device
fail. -/
theorem Reached.failed_write_contained (h : Reached diskSize fs) (faults : Faults) {text : String}
    {path : Path} {id : UInt32} {offset : Nat} {bytes : List UInt8} {failure : Failure}
    (hfile : fs.FileAt text path id)
    (hperform : perform now (.write text offset bytes) (fs.withFaults faults) =
      .error failure fs') :
    fs.Contained (fs'.withFaults Faults.none) text path id offset bytes := by
  obtain ⟨hnone, hsound⟩ := h.sound
  obtain ⟨htext, hwalk, hregular⟩ := (fileAt_iff hsound.mounted).mp hfile
  obtain ⟨hentries, htouches, hregular', htorn⟩ := h.write_ends faults hfile hperform
  have hwrite : ¬ (Request.write text offset bytes).IsCreate := nofun
  have hsafe := safe_after (fs.withFaults faults) hsound.safe now hwrite
  rw [after_of_error hperform] at hsafe
  have hmounted : (fs'.withFaults Faults.none).content.Mounted diskSize := hsafe.mounted
  have hwalk' : (fs'.withFaults Faults.none).content.disk.walk rootId path = .ok id :=
    (hentries.walk_eq Disk.reachable_root path).trans hwalk
  have hresolve' := (Disk.resolve_zero htext).trans hwalk'
  have hnone' : (fs'.withFaults Faults.none).device.faults = Faults.none := rfl
  refine ⟨⟨(fs'.file id).bytes, htorn, fun now => ?_, fun now start buffer count hcount => ?_⟩,
    fun {other way} hother hne => ?_, fun {now other before after} hbefore hafter => ?_⟩
  · obtain ⟨asked, hasked, -⟩ : ∃ asked, perform now (.attributes text) _ = _ ∧ _ :=
      attributes_refines hmounted hnone' hresolve' hregular'
    exact ⟨(fs'.file id).attributes id, by rw [outcome, hasked]; rfl, rfl, rfl, rfl⟩
  · obtain ⟨asked, hasked, -⟩ : ∃ asked, perform now (.read text start buffer) _ = _ ∧ _ :=
      read_refines hmounted hnone' hresolve' hregular' hcount
    rw [outcome, hasked]
    rfl
  · refine seesSame_of_keeps hsound.mounted hnone hmounted hnone' hother ?_
    exact Disk.keeps_of_file hsound.mounted.consistent
      (fun _ hname => Path.isComponent_of_ofString htext hname)
      (fun _ hname => Path.isComponent_of_ofString hother hname) hwalk
      (Inode.isDirectory_eq_false_of_isRegular hregular) hentries htouches hne
  · obtain ⟨way, directory, hway, hto, hdirectory, hnames⟩ :=
      listing_of_outcome hsound.mounted hnone hbefore
    obtain ⟨way', directory', hway', hto', -, hnames'⟩ :=
      listing_of_outcome hmounted hnone' hafter
    obtain rfl := Except.ok.inj (hway.symm.trans hway')
    rw [show (fs'.withFaults Faults.none).content = fs'.content from rfl] at hto' hnames'
    rw [hentries.walk_eq Disk.reachable_root, hto] at hto'
    obtain rfl := Except.ok.inj hto'
    have hslots : fs'.content.disk.slotEntries directory = fs.content.disk.slotEntries directory :=
      funext fun k => by
        rw [Disk.slotEntries, Disk.slotEntries,
          hentries.slots (Disk.walk_reachable Disk.reachable_root hto) hdirectory]
    rw [hnames, hnames', hslots]

theorem effects_write (hsound : fs.content.Sound diskSize)
    (hfaults : fs.device.faults = Faults.none)
    {text : String} {path : Path} {id : UInt32} {offset : Nat} {bytes : List UInt8}
    {response : Response} (hfile : fs.FileAt text path id) (hbytes : bytes ≠ [])
    (hgranted : fs.outcome now (.write text offset bytes) = .ok response) :
    ∃ blocks, fs.content.Extends diskSize id (offset + bytes.length) blocks ∧
      ((Request.write text offset bytes).effects fs.volume now).answer fs.device.disk =
        .ok (Effect.growth blocks ++ .store id ((fs.content.disk.inode id).written now
          (offset + bytes.length) blocks).encode :: ((fs.content.disk.inode id).written now
            (offset + bytes.length) blocks).patches offset bytes) := by
  obtain ⟨htext, hwalk, hregular⟩ := (fileAt_iff hsound.mounted).mp hfile
  have hresolve := (Disk.resolve_zero htext).trans hwalk
  rw [outcome_transacts hsound hfaults (transacts_write now text offset bytes)] at hgranted
  cases hplan : (fs.volume.write now text offset bytes).answer fs.device.disk with
  | error failure =>
    rw [hplan] at hgranted
    cases hgranted
  | ok update =>
    have heffects : ((Request.write text offset bytes).effects fs.volume now).answer
        fs.device.disk = .ok update.effects := Query.answer_map_eq_ok.mpr ⟨_, hplan, rfl⟩
    obtain ⟨other, hother, -, -, hcases⟩ := hsound.safe.of_write hplan
    obtain rfl := Except.ok.inj (hresolve.symm.trans hother)
    obtain ⟨hnil, -⟩ | ⟨-, blocks, -, hextends, rfl⟩ := hcases
    · exact absurd hnil hbytes
    · exact ⟨blocks, hextends, heffects⟩

/-- Where a write succeeds, the same write fails if one of its blocks cannot be written. Then the
blocks before that one have the new bytes, and the others the old ones. -/
theorem Reached.write_halted (h : Reached diskSize fs) {text : String} {path : Path} {id : UInt32}
    {offset index : Nat} {bytes : List UInt8} {response : Response} (hfile : fs.FileAt text path id)
    (hbytes : bytes ≠ []) (hgranted : fs.outcome now (.write text offset bytes) = .ok response)
    (hindex : index ∈ blockRange offset (offset + bytes.length)) :
    ∃ block failed, perform now (.write text offset bytes) (fs.withFaults (Faults.onBlock block)) =
        .error (.refused .io) failed ∧
      ∀ position < (fs.file id).bytes.length, (failed.file id).bytes[position]? =
        if offset ≤ position ∧ position < offset + bytes.length ∧ position / blockSize < index
        then bytes[position - offset]? else (fs.file id).bytes[position]? := by
  obtain ⟨hnone, hsound⟩ := h.sound
  have hlow := (mem_blockRange.mp hindex).1
  obtain ⟨blocks, hextends, heffects⟩ := effects_write hsound hnone hfile hbytes hgranted
  -- The write is cut in front of the block.
  obtain ⟨rest, hrest⟩ := ((fs.content.disk.inode id).written now (offset + bytes.length)
    blocks).exists_patches_eq hindex
  have hsplit : Effect.growth blocks ++ .store id ((fs.content.disk.inode id).written now
        (offset + bytes.length) blocks).encode :: ((fs.content.disk.inode id).written now
          (offset + bytes.length) blocks).patches offset bytes =
      (Effect.growth blocks ++ .store id ((fs.content.disk.inode id).written now
        (offset + bytes.length) blocks).encode :: (((fs.content.disk.inode id).written now
          (offset + bytes.length) blocks).patches offset bytes).take (index - offset / blockSize)) ++
        ((fs.content.disk.inode id).written now (offset + bytes.length) blocks).patch offset bytes
          index :: rest := by
    rw [List.append_assoc, List.cons_append, ← hrest]
  have hallowed := (hsound.restores_request heffects).1
  rw [hsplit] at hallowed
  obtain ⟨hfirst, hlast, -⟩ := Effect.allAllowed_append.mp hallowed
  obtain ⟨failed, hfailed, hcontent⟩ := perform_unwritten hsound.mounted.fits heffects hsplit
    (fun _ heffect => hextends.target_before hsound.mounted now hindex heffect) rfl
    hfirst hlast
  refine ⟨_, failed, hfailed, fun position hposition => ?_⟩
  rw [length_bytes] at hposition
  have hinode := (hextends.rewrites_take hsound.mounted now (index - offset / blockSize)).inode
  have hfound := hextends.getElem?_after_take hsound.mounted now (index - offset / blockSize)
    hposition
  rw [Nat.add_sub_cancel' hlow] at hfound
  simp only [and_assoc] at hfound
  rw [file, Disk.file, Disk.fileOf, hcontent, hinode]
  exact hfound

/-- Two blocks are written to a new file, and then written over, but for the second one, which
cannot be written. -/
theorem write_contained_of_halted : ∃ volume device created id fs block failed,
    Device.format 16 0 (Device.ofDisk (Disk.blank 16)) = .ok volume device ∧
      perform 1 (.create "/a" 0o644 .regular ⟨0, 0⟩) ⟨device, volume⟩ = .ok (.inode id) created ∧
      perform 2 (.write "/a" 0 (List.replicate 8192 1)) created = .ok (.written 8192) fs ∧
      fs.FileAt "/a" [[97]] id ∧ (fs.file id).bytes = List.replicate 8192 1 ∧
      perform 3 (.write "/a" 0 (List.replicate 8192 2)) (fs.withFaults (Faults.onBlock block)) =
        .error (.refused .io) failed ∧
      (failed.file id).bytes[4095]? = some 2 ∧ (failed.file id).bytes[4096]? = some 1 ∧
      fs.Contained (failed.withFaults Faults.none) "/a" [[97]] id 0 (List.replicate 8192 2) := by
  obtain ⟨volume, device, created, id, hformat, hperform, hreached, hfile, hempty, hfree⟩ :=
    exists_created_file
  obtain ⟨hfaults, hsound⟩ := hreached.sound
  have hones : (List.replicate 8192 (1 : UInt8)).length = 8192 := List.length_replicate
  have htwos : (List.replicate 8192 (2 : UInt8)).length = 8192 := List.length_replicate
  have hsome : ∀ byte : UInt8, List.replicate 8192 byte ≠ [] := fun byte =>
    List.ne_nil_of_length_pos (by rw [List.length_replicate]; decide)
  obtain ⟨fs, hwrite⟩ : ∃ fs, perform 2 (.write "/a" 0 (List.replicate 8192 1)) created =
      .ok (.written 8192) fs := by
    rw [← outcome_eq_ok_iff, write_outcome hsound hfaults hfile (hsome 1), hempty, hfree, hones]
    rfl
  have hafter : Reached 16 fs := hreached.performed hwrite
  obtain ⟨htext, hwalk, -⟩ := (fileAt_iff hsound.mounted).mp hfile
  obtain ⟨-, -, hupdates⟩ := write_refines hsound hfaults ((Disk.resolve_zero htext).trans hwalk)
    (hsome 1) hwrite
  have hbytes : (fs.file id).bytes = List.replicate 8192 1 := by
    rw [hupdates.file, hempty, List.take_nil, List.drop_nil, List.nil_append, List.append_nil]
  have hfile' : fs.FileAt "/a" [[97]] id := by
    refine ⟨htext, ?_, ?_⟩
    · rw [hupdates.nodes]
      exact hfile.walk
    · rw [hupdates.nodes]
      exact hfile.file
  have hgranted : fs.outcome 3 (.write "/a" 0 (List.replicate 8192 2)) = .ok (.written 8192) := by
    rw [write_outcome hafter.sound.2 hafter.sound.1 hfile' (hsome 2), hbytes, hones, htwos]
    rfl
  have hindex : 1 ∈ blockRange 0 (0 + (List.replicate 8192 (2 : UInt8)).length) := by
    rw [htwos, mem_blockRange]
    decide
  obtain ⟨block, failed, hfailed, htorn⟩ := hafter.write_halted hfile' (hsome 2) hgranted hindex
  have hread : ∀ position < 8192, (failed.file id).bytes[position]? =
      if position / blockSize < 1 then some 2 else some 1 := by
    intro position hposition
    have hfound := htorn position (by rw [hbytes, hones]; exact hposition)
    rw [hfound, htwos, hbytes, List.getElem?_replicate, List.getElem?_replicate, Nat.sub_zero,
      Nat.zero_add, if_pos hposition, if_pos hposition]
    simp only [hposition, Nat.zero_le, true_and]
  exact ⟨volume, device, created, id, fs, block, failed, hformat, hperform, hwrite, hfile', hbytes,
    hfailed, hread 4095 (by decide), hread 4096 (by decide),
    hafter.failed_write_contained (Faults.onBlock block) hfile' hfailed⟩

end FileSystem

end BlockFS
