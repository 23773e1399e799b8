import BlockFS.Proofs.Data.Words
import BlockFS.Proofs.Invariant.Tampering
import BlockFS.Proofs.Refinement.Remount
import BlockFS.Proofs.Refinement.Space
import BlockFS.Proofs.Refinement.StrayPointers

/-!
What an untrusted device cannot do. Whatever it holds and however it fails, a call has a result or
is refused: nothing is read or written past the end of a record, a buffer or the bitmap, and the
numbers of the data paths keep to their words. The one exception are the counters, and those are
safe as long as the bitmap can be written and not very many blocks were given back.
-/

set_option autoImplicit false
set_option relaxedAutoImplicit false

namespace BlockFS

inductive Call.Overflows (call : Call) : Prop
  | intro {first rest : List Effect} {effect : Effect} {decided middle fs' : FileSystem}
      (hdecides : call.decides = .ok (first ++ effect :: rest) decided)
      (hfirst : FileSystem.commit first decided = .ok () middle)
      (hoverflows : effect.Overflows middle.volume.usage)
      (hcommit : FileSystem.commit (first ++ effect :: rest) decided = .error .overflow fs') :
      call.Overflows

/-- How a call can fail on an untrusted device. -/
def Call.Fails (call : Call) : Failure → Prop
  | .refused _ => True
  | .outOfBounds => False
  | .overflow => call.Overflows

theorem Failure.Refusal.fails {failure : Failure} (h : failure.Refusal) (call : Call) :
    call.Fails failure := by
  cases failure with
  | refused reason => trivial
  | _ => exact h.elim

namespace FileSystem

variable {α : Type} {fs fs' : FileSystem} {now : UInt32} {request : Request} {failure : Failure}
  {released : Nat}

/-! ### How calls fail -/

theorem fails_of_transacts (hsized : fs.volume.Sized) {plan : Volume → Query (Update α)}
    {f : α → Response} (h : Transacts now request plan f)
    (hperform : perform now request fs = .error failure fs') :
    Call.Fails ⟨fs, now, request⟩ failure := by
  have hensures := (hsized.questions fs.device.disk).effects now request
  have hruns := runs_of_transacts h fs
  rw [hperform] at hruns
  cases hruns with
  | refused hask => exact (ask_error hensures hask).fails _
  | @stopped effects _ decided _ hask hcommit =>
    obtain ⟨hanswer, -, hcontent⟩ := ask_ok hask
    have hvolume : decided.volume = fs.volume := congrArg Content.volume hcontent
    have hfits : decided.volume.bitmap.Fits := hvolume ▸ hsized.fits
    rcases commit_error hfits (Effect.inside_of_accounts (hensures.of_ok hanswer)) hcommit with
      rfl | ⟨rfl, first, effect, rest, middle, rfl, hfirst, hoverflows⟩
    · trivial
    · exact .intro hask hfirst hoverflows hcommit

theorem fails_of_asks {question : Volume → Query α} {f : α → Response} {holds : α → Prop}
    (h : Asks now request question f)
    (hensures : Ensures Failure.Refusal holds ((question fs.volume).answer fs.device.disk))
    (hperform : perform now request fs = .error failure fs') :
    Call.Fails ⟨fs, now, request⟩ failure := by
  rw [h] at hperform
  exact (ask_error hensures (error_of_bind (fun _ _ => ⟨_, _, rfl⟩) hperform)).fails _

theorem refusal_of_readInto {v : Volume} (hsized : v.Sized) {i : Inode} {offset : Nat}
    {buffer : List UInt8} {d : Device}
    (h : (i.readInto offset buffer d).1.outcome = .error failure) : failure.Refusal := by
  have hreadable := @Volume.Questions.readable v d.disk _ _ rootId i (hsized.questions d.disk)
    trivial offset buffer.length
  rw [Inode.readInto] at h
  cases hsegments : i.readable offset buffer.length with
  | error reason =>
    rw [hsegments] at h hreadable
    cases h
    exact hreadable
  | ok segments =>
    rw [hsegments] at h hreadable
    rcases hreadable with rfl | ⟨stop, hstart, hstop, hcount, rfl⟩
    · cases h
    · have hbytes := Inode.flatMap_segments d.disk hstart hstop
      have hroom : (((blockRange offset stop).map (i.segment offset stop)).flatMap
          (·.bytes d.disk)).length ≤ buffer.length := by
        rw [hbytes, List.length_take]
        omega
      rw [fill_error (fun segment hsegment =>
        Inode.segment_within (Nat.le_of_lt hstart) hsegment) hroom h]
      trivial

theorem refusal_of_read (hsized : fs.volume.Sized) {text : String} {offset : Nat}
    {buffer : List UInt8} (h : (read text offset buffer fs).1.outcome = .error failure) :
    failure.Refusal := by
  rw [read] at h
  cases hask : ask (fun v => v.locate text 0) fs with
  | error reason other =>
    simp only [hask] at h
    cases h
    exact ask_error ((hsized.questions fs.device.disk).locate text 0) hask
  | ok located other =>
    simp only [hask] at h
    exact refusal_of_readInto hsized h

theorem fails_of_perform (hsized : fs.volume.Sized)
    (hperform : perform now request fs = .error failure fs') :
    Call.Fails ⟨fs, now, request⟩ failure := by
  have hquestions := hsized.questions fs.device.disk
  cases request with
  | lookup text => exact fails_of_asks (asks_lookup now text) (hquestions.lookup text) hperform
  | attributes text =>
    exact fails_of_asks (asks_attributes now text) (hquestions.attributes text) hperform
  | list text => exact fails_of_asks (asks_list now text) (hquestions.list text) hperform
  | create text permissions type owner =>
    exact fails_of_transacts hsized (transacts_create now text permissions type owner) hperform
  | deleteFile text => exact fails_of_transacts hsized (transacts_deleteFile now text) hperform
  | deleteDirectory text =>
    exact fails_of_transacts hsized (transacts_deleteDirectory now text) hperform
  | rename source target =>
    exact fails_of_transacts hsized (transacts_rename now source target) hperform
  | setPermissions text mode =>
    exact fails_of_transacts hsized (transacts_setPermissions now text mode) hperform
  | setModified text mtime =>
    exact fails_of_transacts hsized (transacts_setModified now text mtime) hperform
  | truncate text length =>
    exact fails_of_transacts hsized (transacts_truncate now text length) hperform
  | write text offset bytes =>
    exact fails_of_transacts hsized (transacts_write now text offset bytes) hperform
  | read text offset buffer =>
    have houtcome : (read text offset buffer fs).1.outcome = .error failure := by
      simp only [perform] at hperform
      split at hperform
      · cases hperform
      · rename_i heq
        cases hperform
        rw [heq]
    exact (refusal_of_read hsized houtcome).fails _
  | statistics => cases hperform
  | usage => cases hperform
  | sync =>
    obtain ⟨device, hflush⟩ := onDevice_error (error_of_bind (fun _ _ => ⟨_, _, rfl⟩) hperform)
    rw [Device.flush] at hflush
    split at hflush <;> cases hflush
    trivial
  | remount =>
    have hremount : remount fs = .error failure fs' :=
      error_of_bind (fun _ _ => ⟨_, _, rfl⟩) hperform
    obtain ⟨device, hmount⟩ := onDevice_error (error_of_bind (fun _ _ => ⟨_, _, rfl⟩) hremount)
    exact (Query.run_error (Volume.load_ensures _ _) hmount).fails _

theorem fails_of_outcome (hsized : fs.volume.Sized)
    (houtcome : fs.outcome now request = .error failure) :
    Call.Fails ⟨fs, now, request⟩ failure := by
  rw [outcome] at houtcome
  split at houtcome
  · cases houtcome
  · rename_i heq
    cases houtcome
    exact fails_of_perform hsized heq

theorem limit_of_overflow (hsized : fs.volume.Sized) (hmargin : fs.volume.Margin released)
    (h : Call.Overflows ⟨fs, now, request⟩) :
    2 ^ 31 ≤ released + Call.released ⟨fs, now, request⟩ := by
  obtain ⟨hdecides, -, -, hcommit⟩ := h
  obtain ⟨hkeeps, hreleased⟩ := keepsMargin_decided hsized hmargin hdecides
  rw [hreleased]
  exact hkeeps.overflow hcommit

end FileSystem

/-! ### A file with one pointer twice -/

/-- The inode of a file of two blocks that has the same pointer twice. -/
def Inode.doubled : Inode :=
  { Inode.fresh .regular 0o644 ⟨0, 0⟩ 0 none with
    size := 8192
    pointers := ((Vector.replicate pointerCount 0).set 0 5 pointerCount_pos).set 1 5 (by decide) }

theorem Inode.doubled_spec : doubled.isDirectory = false ∧ doubled.length = 8192 ∧
    doubled.ownBlocks = [5, 5] := by
  have hfile : doubled.isDirectory = false := by decide
  have hlength : doubled.length = 8192 := by decide
  refine ⟨hfile, hlength, ?_⟩
  have hcount : doubled.blockCount = 2 := by
    rw [blockCount, hlength]
    rfl
  have hroom : 1 < pointerCount := by decide
  have hfirst : doubled.pointer 0 = 5 := by
    rw [pointer_eq _ pointerCount_pos]
    exact (Vector.getElem_set_ne hroom pointerCount_pos (by decide)).trans
      (Vector.getElem_set_self pointerCount_pos)
  have hsecond : doubled.pointer 1 = 5 := by
    rw [pointer_eq _ hroom]
    exact Vector.getElem_set_self hroom
  rw [ownBlocks, hcount]
  exact congrArg₂ (fun first second => [first, second]) hfirst hsecond

theorem Volume.effects_doubled {v : Volume} (hsuper : v.superblock = Superblock.ofSize 16)
    (now : UInt32) :
    ((Request.deleteFile "/a").effects v now).answer (Disk.holding Inode.doubled) =
      .ok ((Disk.holding Inode.doubled).detached rootId 0 :: Effect.deallocate [5, 5, 4]) := by
  obtain ⟨hfile, hlength, hblocks⟩ := Inode.doubled_spec
  have hinode := Disk.inode_file_holding Inode.doubled
  have hreleased : (Disk.holding Inode.doubled).released 4 = [5, 5, 4] := by
    rw [Disk.released_file (by rw [hinode, hfile]), hinode, hblocks]
    rfl
  rw [← hreleased]
  exact Query.answer_map_eq_ok.mpr ⟨_, deleteFile_answer (locate_holding hsuper _)
    (by rw [hinode, hfile]) (by rw [hinode, hlength]; decide) (endsIn_holding hsuper _), rfl⟩

namespace FileSystem

theorem deleteFile_doubled {fs : FileSystem} (hsized : fs.volume.Sized)
    (hfaults : fs.device.faults = Faults.none)
    (hdisk : fs.device.disk = Disk.holding Inode.doubled)
    (hsuper : fs.volume.superblock = Superblock.ofSize 16)
    (hroom : fs.content.free + 3 < UInt32.size) (now : UInt32) :
    ∃ fs', perform now (.deleteFile "/a") fs = .ok .done fs' ∧
      fs'.content.free = fs.content.free + 3 := by
  have heffects := Volume.effects_doubled hsuper now
  have hinside := (Volume.endsIn_holding hsuper Inode.doubled).inside
  rw [← hdisk] at heffects hinside
  obtain ⟨update, hplan, hupdate⟩ := Query.answer_map_eq_ok.mp heffects
  have hblocks : fs.volume.bitmap.blocks = 16 := by
    rw [hsized.blocks, hsuper]
    rfl
  have hsize : fs.device.disk.size = 16 := by
    rw [hdisk]
    rfl
  have hallowed : Effect.AllAllowed update.effects fs.content := by
    rw [hupdate]
    refine ⟨?_, ?_, ?_, ⟨_, if_neg (Nat.not_le.mpr hroom)⟩, trivial⟩
    · exact hinside
    · intro block hblock
      show block < fs.volume.bitmap.blocks
      rw [hblocks]
      simp only [List.mem_cons, List.not_mem_nil, or_false] at hblock
      rcases hblock with rfl | rfl | rfl <;> decide
    · show bitmapId.toNat < fs.device.disk.size
      rw [hsize]
      decide
  obtain ⟨fs', hperform, hcontent⟩ := perform_of_allowed hsized.fits hfaults
    (transacts_deleteFile now "/a") hplan hallowed
  refine ⟨fs', hperform, ?_⟩
  have hcounted := Content.free_after hallowed
  rw [← hcontent, hupdate, Effect.balance_cons, Effect.balance_deallocate, Disk.detached,
    Effect.gain_storeSlots] at hcounted
  exact Int.ofNat_inj.mp hcounted

private theorem exists_created_remounted : ∃ volume device mounted id created,
    Device.format 16 0 (Device.ofDisk (Disk.blank 16)) = .ok volume device ∧
      Device.mount device = .ok volume mounted ∧
      ((FileSystem.mk mounted volume).facing mounted.disk Faults.none).content.Sound 16 ∧
      perform 1 (.create "/a" 0o644 .regular ⟨0, 0⟩)
        ((FileSystem.mk mounted volume).facing mounted.disk Faults.none) =
          .ok (.inode id) created ∧
      created.content.free = 11 ∧ created.volume.superblock = Superblock.ofSize 16 := by
  obtain ⟨volume, device, fs, id, hformat, hreached, hperform⟩ := exists_created
  obtain ⟨hfaults, hsound⟩ := hreached.sound
  obtain ⟨mounted, hmount, hdisk⟩ := mount_of_sound hsound hfaults
  have hsame : ((FileSystem.mk mounted volume).facing mounted.disk Faults.none).content =
      (FileSystem.mk device volume).content := congrArg (Content.mk · volume) hdisk
  obtain ⟨created, hcreated, hcontent⟩ := perform_of_same hsound hfaults
    (transacts_create 1 "/a" 0o644 .regular ⟨0, 0⟩)
    ((FileSystem.mk mounted volume).facing mounted.disk Faults.none) rfl hsame hperform
  refine ⟨volume, device, mounted, id, created, hformat, hmount, hsame ▸ hsound, hcreated, ?_, ?_⟩
  · have hcounted : fs.content.free + 1 = _ := free_of_create hsound hfaults hperform
    rw [free_of_formatted hformat] at hcounted
    rw [hcontent]
    exact Nat.succ.inj hcounted
  · have hvolume : created.volume = fs.volume := congrArg Content.volume hcontent
    rw [hvolume]
    exact (sound_of_perform hsound hfaults hperform).2.mounted.superblock

theorem released_create {fs : FileSystem} {diskSize now : UInt32} (hsafe : fs.content.Safe diskSize)
    {text : String} {permissions : UInt32} {type : FileType} {owner : Owner} :
    Call.released ⟨fs, now, .create text permissions type owner⟩ = 0 := by
  rw [Call.released]
  split
  · rename_i effects decided hdecides
    obtain ⟨hanswer, -⟩ := ask_ok hdecides
    obtain ⟨update, hplan, rfl⟩ := Query.answer_map_eq_ok.mp hanswer
    obtain ⟨_, _, _, _, _, blank, -, -, -, -, rfl⟩ := hsafe.of_create hplan
    refine Nat.le_zero.mp (Nat.le_trans (returned_le _ _) (Nat.le_of_eq ?_))
    refine List.sum_eq_zero_iff_forall_eq_nat.mpr fun count hcount => ?_
    obtain ⟨effect, heffect, rfl⟩ := List.mem_map.mp hcount
    rcases List.mem_append.mp heffect with hwrite | htake
    · simp only [Content.creation, List.mem_cons, List.mem_map] at hwrite
      rcases hwrite with rfl | rfl | ⟨block, -, rfl⟩ <;> rfl
    · simp only [Effect.allocate, List.mem_cons, List.not_mem_nil, or_false] at htake
      rcases htake with rfl | rfl | rfl <;> rfl
  · rfl

/-! ### What an untrusted device cannot do -/

/-- What holds whatever the device was when the file system was mounted, whatever it was during the
calls so far, and whatever it is and does next. -/
structure Withstands (calls : List Call) (fs : FileSystem) : Prop where
  /-- No access is out of bounds. -/
  bounds : ∀ {disk faults now request},
    (fs.facing disk faults).outcome now request ≠ .error .outOfBounds
  /-- No number leaves its word but a counter that cannot follow an effect. -/
  words : ∀ {disk faults now request},
    (fs.facing disk faults).outcome now request = .error .overflow →
      Call.Overflows ⟨fs.facing disk faults, now, request⟩
  /-- In words of 64 bits a read is the same, whatever the inode says. -/
  reading : ∀ (inode : Inode) (offset count : Nat),
    Word64.readable inode offset count = inode.readable offset count
  /-- In words of 64 bits a write is the same, whatever the inode says. -/
  writing : ∀ (now id : UInt32) (inode : Inode) (offset : Nat) (bytes : List UInt8),
    bytes.length < Word64.bufferLimit →
      Word64.writeFile fs.volume now id inode offset bytes =
        fs.volume.writeFile now id inode offset bytes
  /-- In words of 64 bits a file shrinks the same, whatever its inode says. -/
  shrinking : ∀ (id : UInt32) (inode : Inode) (length : Nat),
    Word64.shrinkFile fs.volume id inode length = fs.volume.shrinkFile id inode length
  /-- A name is whole in its field, and there is room for a NUL behind it. -/
  names : ∀ name : Name, (Name.truncate name).length < nameField ∧
    name.toField.toList = Name.truncate name ++
      List.replicate (nameField - (Name.truncate name).length) 0
  /-- The search for the place where a name is cut, and the cut, are inside the name. -/
  cuts : ∀ name : Name, name.checkedTruncate = .ok name.truncate
  /-- A name is stored inside its field. -/
  fields : ∀ name : Name, name.checkedField = .ok name.toField
  /-- At least as many blocks are counted as free as are clear, if the bitmap could be written and
  not very many blocks were given back. -/
  clear : (∀ call ∈ calls, call.Saves) → (calls.map Call.released).sum < 2 ^ 31 →
    (fs.volume.bitmap.clear reservedBlocks.toNat).length ≤ fs.volume.usage.free.toNat
  /-- Blocks that are found can then be taken from the counter. -/
  takes : (∀ call ∈ calls, call.Saves) → (calls.map Call.released).sum < 2 ^ 31 →
    ∀ {wanted blocks}, fs.volume.bitmap.firstFit reservedBlocks wanted = .ok blocks →
      ∃ usage, fs.volume.usage.charge blocks.length = .ok usage
  /-- No counter leaves its word then before very many blocks are given back. -/
  counters : (∀ call ∈ calls, call.Saves) → (calls.map Call.released).sum < 2 ^ 31 →
    ∀ {disk faults now request},
      (fs.facing disk faults).outcome now request = .error .overflow →
        2 ^ 31 ≤ (calls.map Call.released).sum +
          Call.released ⟨fs.facing disk faults, now, request⟩

/-- Whatever happened to its device, a file system withstands what comes next. -/
theorem Tampered.withstands {fs : FileSystem} {calls : List Call} (h : Tampered calls fs) :
    fs.Withstands calls := by
  have hsized := h.sized
  have hfails : ∀ {disk faults now request failure},
      (fs.facing disk faults).outcome now request = .error failure →
        Call.Fails ⟨fs.facing disk faults, now, request⟩ failure := fun houtcome =>
    fails_of_outcome hsized houtcome
  refine ⟨fun houtcome => hfails houtcome, hfails, Word64.readable_eq, ?_, ?_, ?_,
    Name.checkedTruncate_eq, Name.checkedField_eq, ?_, ?_, ?_⟩
  · intro now id inode offset bytes hbytes
    exact Word64.writeFile_eq hsized.fits now id inode offset hbytes
  · exact Word64.shrinkFile_eq fs.volume
  · exact fun name => ⟨Nat.lt_succ_of_le name.length_truncate_le, name.toList_toField⟩
  · exact fun hsaves hlimit => (h.margin hsaves hlimit).clear
  · intro hsaves hlimit wanted blocks hblocks
    have hoffers := Bitmap.offers_of_firstFit hsized.fits hblocks
    have hwanted := hoffers.wanted_le hsized.fits
    have hclear := (h.margin hsaves hlimit).clear
    refine ⟨_, if_neg ?_⟩
    rw [hoffers.length]
    omega
  · intro hsaves hlimit disk faults now request houtcome
    exact limit_of_overflow hsized (h.margin hsaves hlimit) (hfails houtcome)

/-- A file is created in a file system of 16 blocks that was mounted again. Then the disk is
replaced by one that has the file with a pointer twice, to a block that is clear, and the file is
deleted: three blocks are counted as free where one more is clear. -/
theorem withstands_doubled_pointers : ∃ volume device mounted id created removed,
    Device.format 16 0 (Device.ofDisk (Disk.blank 16)) = .ok volume device ∧
      Device.mount device = .ok volume mounted ∧
      perform 1 (.create "/a" 0o644 .regular ⟨0, 0⟩)
        ((FileSystem.mk mounted volume).facing mounted.disk Faults.none) =
          .ok (.inode id) created ∧
      perform 2 (.deleteFile "/a") (created.facing (Disk.holding Inode.doubled) Faults.none) =
        .ok .done removed ∧
      removed.content.free = created.content.free + 3 ∧
      removed.Withstands
        [⟨created.facing (Disk.holding Inode.doubled) Faults.none, 2, .deleteFile "/a"⟩,
          ⟨(FileSystem.mk mounted volume).facing mounted.disk Faults.none, 1,
            .create "/a" 0o644 .regular ⟨0, 0⟩⟩] ∧
      (removed.volume.bitmap.clear reservedBlocks.toNat).length ≤
        removed.volume.usage.free.toNat ∧
      ∀ {wanted blocks}, removed.volume.bitmap.firstFit reservedBlocks wanted = .ok blocks →
        ∃ usage, removed.volume.usage.charge blocks.length = .ok usage := by
  obtain ⟨volume, device, mounted, id, created, hformat, hmount, hsound, hcreated, hfree, hsuper⟩ :=
    exists_created_remounted
  -- The create takes a block.
  have hmounted : Tampered [] ⟨mounted, volume⟩ := .mounted hmount
  have hcalled := hmounted.called mounted.disk Faults.none 1 (.create "/a" 0o644 .regular ⟨0, 0⟩)
  rw [after_of_ok hcreated] at hcalled
  -- The removal counts three.
  have hsized : (created.facing (Disk.holding Inode.doubled) Faults.none).volume.Sized :=
    hcalled.sized
  have hroom : (created.facing (Disk.holding Inode.doubled) Faults.none).content.free + 3 <
      UInt32.size := by
    show created.content.free + 3 < UInt32.size
    rw [hfree]
    decide
  obtain ⟨removed, hremoved, hthree⟩ := deleteFile_doubled hsized rfl rfl hsuper hroom 2
  have hremoval := hcalled.called (Disk.holding Inode.doubled) Faults.none 2 (.deleteFile "/a")
  rw [after_of_ok hremoved] at hremoval
  have hsaves : ∀ call ∈ [Call.mk (created.facing (Disk.holding Inode.doubled) Faults.none) 2
      (.deleteFile "/a"), ⟨(FileSystem.mk mounted volume).facing mounted.disk Faults.none, 1,
        .create "/a" 0o644 .regular ⟨0, 0⟩⟩], call.Saves := by
    intro call hcall
    simp only [List.mem_cons, List.not_mem_nil, or_false] at hcall
    rcases hcall with rfl | rfl
    · exact saves_of_spared hsized (fun _ _ => rfl)
        (show bitmapId.toNat < (Disk.holding Inode.doubled).size by decide)
    · exact saves_of_spared hmounted.sized (fun _ _ => rfl) hsound.mounted.bitmap_lt_size
  have htaken : Call.released ⟨(FileSystem.mk mounted volume).facing mounted.disk Faults.none, 1,
      .create "/a" 0o644 .regular ⟨0, 0⟩⟩ = 0 :=
    released_create hsound.safe
  have hgiven : Call.released ⟨created.facing (Disk.holding Inode.doubled) Faults.none, 2,
      .deleteFile "/a"⟩ ≤ 3 := by
    have heffects : ((Request.deleteFile "/a").effects
        (created.facing (Disk.holding Inode.doubled) Faults.none).volume 2).answer
          (created.facing (Disk.holding Inode.doubled) Faults.none).device.disk = .ok _ :=
      Volume.effects_doubled hsuper 2
    exact released_le heffects
  have hlimit : ([Call.mk (created.facing (Disk.holding Inode.doubled) Faults.none) 2
      (.deleteFile "/a"), ⟨(FileSystem.mk mounted volume).facing mounted.disk Faults.none, 1,
        .create "/a" 0o644 .regular ⟨0, 0⟩⟩].map Call.released).sum < 2 ^ 31 := by
    rw [List.map_cons, List.map_cons, List.map_nil, List.sum_cons, List.sum_cons, List.sum_nil,
      htaken]
    omega
  have hwithstands := Tampered.withstands hremoval
  exact ⟨volume, device, mounted, id, created, removed, hformat, hmount, hcreated, hremoved,
    hthree, hwithstands, hwithstands.clear hsaves hlimit, hwithstands.takes hsaves hlimit⟩

end FileSystem

end BlockFS
