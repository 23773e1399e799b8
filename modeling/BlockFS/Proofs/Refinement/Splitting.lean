import BlockFS.Proofs.Data.Splitting
import BlockFS.Proofs.Refinement.Space

/-!
Writing in pieces. Whether the pieces of some bytes are written one after another, each where the
one before it ended, or all at once makes no difference: either way succeeds if the other does, and
then they leave the same blocks, the same bitmap and the same counters. It comes down to two pieces,
and for these to what a write takes, which depends on where it ends and not on where it began.
-/

set_option autoImplicit false
set_option relaxedAutoImplicit false

namespace BlockFS

namespace Content

variable {c : Content} {diskSize id now : UInt32} {offset : Nat} {bytes : List UInt8}
  {blocks : List UInt32}

theorem Extends.inode_after_writing (h : c.Mounted diskSize)
    (he : Extends c diskSize id (offset + bytes.length) blocks) (now : UInt32) :
    Disk.Rewrites c.disk (c.after ((c.disk.inode id).writing id now offset bytes blocks)).disk id
      ((c.disk.inode id).written now (offset + bytes.length) blocks) := by
  rw [Inode.writing]
  exact h.rewrites he.reachable he.regular
    (j := (c.disk.inode id).written now (offset + bytes.length) blocks) he.regular _ _
    (he.onData_rest h now)

section

variable {front back : List UInt8} {first second : List UInt32} {middle : Content}
  (he : Extends c diskSize id (offset + front.length) first)
  (hfirst : c.volume.bitmap.firstFit reservedBlocks
    (blocksToHold (offset + front.length) - (c.disk.inode id).blockCount) = .ok first)
  (hmiddle : middle = c.after ((c.disk.inode id).writing id now offset front first))
  (hsecond : middle.volume.bitmap.firstFit reservedBlocks
    (blocksToHold (offset + front.length + back.length) - (middle.disk.inode id).blockCount) =
      .ok second)

include he hfirst hmiddle hsecond

theorem Mounted.found_append (h : c.Mounted diskSize) :
    c.volume.bitmap.firstFit reservedBlocks
        (blocksToHold (offset + (front ++ back).length) - (c.disk.inode id).blockCount) =
      .ok (first ++ second) := by
  have hinode := (he.inode_after_writing h now).inode
  have hcount := Inode.blockCount_written (h.consistent.formed he.reachable) now he.limit he.length
  rw [← hinode, ← hmiddle] at hcount
  rw [hcount, hmiddle, bitmap_after_writing] at hsecond
  have hmono := blocksToHold_mono (Nat.le_add_right (offset + front.length) back.length)
  have hlength := he.length
  have hsum : blocksToHold (offset + (front ++ back).length) - (c.disk.inode id).blockCount =
      blocksToHold (offset + front.length) - (c.disk.inode id).blockCount +
        (blocksToHold (offset + front.length + back.length) -
          ((c.disk.inode id).blockCount + first.length)) := by
    rw [List.length_append, ← Nat.add_assoc]
    omega
  rw [hsum]
  exact Bitmap.firstFit_append h.fits hfirst hsecond

theorem Sound.writing_append (h : c.Sound diskSize)
    (he' : Extends middle diskSize id (offset + front.length + back.length) second) :
    (middle.after ((middle.disk.inode id).writing id now (offset + front.length) back
        second)).Identical
      (c.after ((c.disk.inode id).writing id now offset (front ++ back) (first ++ second))) := by
  have hformed := h.mounted.consistent.formed he.reachable
  have hsound : middle.Sound diskSize := by
    rw [hmiddle]
    exact (h.restores_move (.extend he (Bitmap.offers_of_firstFit h.mounted.fits hfirst))).2
  have hinode := (he.inode_after_writing h.mounted now).inode
  rw [← hmiddle] at hinode
  have hstop : offset + (front ++ back).length = offset + front.length + back.length := by
    rw [List.length_append, Nat.add_assoc]
  have hoffers := Bitmap.offers_of_firstFit h.mounted.fits
    (h.mounted.found_append he hfirst hmiddle hsecond)
  have hextends : Extends c diskSize id (offset + (front ++ back).length) (first ++ second) :=
    ⟨he.reachable, he.regular, hstop ▸ he'.limit, hoffers.length, hoffers.nodup,
      h.safe.spare hoffers⟩
  have hwhole : (c.after ((c.disk.inode id).writing id now offset (front ++ back)
      (first ++ second))).Sound diskSize := (h.restores_move (.extend hextends hoffers)).2
  have hlast : (middle.after ((middle.disk.inode id).writing id now (offset + front.length) back
      second)).Sound diskSize :=
    (hsound.restores_move (.extend he'
      (Bitmap.offers_of_firstFit hsound.mounted.fits hsecond))).2
  refine hlast.identical hwhole fun block hblock => ?_
  -- Both ways the file ends up with the same inode, whose pointers lead to where the bytes go.
  have hwritten : (middle.disk.inode id).written now (offset + front.length + back.length) second =
      (c.disk.inode id).written now (offset + (front ++ back).length) (first ++ second) := by
    rw [hinode, hstop, hformed.written_written now (Nat.le_add_right _ _) he.limit he.length]
  have hpatches := he.patches_written h.mounted now (offset + front.length + back.length) second
  rw [← hinode, hwritten, hinode] at hpatches
  rw [Inode.writing, Inode.writing, hwritten, hmiddle, Inode.writing, ← hpatches]
  exact (block_after_writing_append (hextends.apart h.mounted now) hblock).symm

end

end Content

namespace FileSystem

/-- Writes pieces of bytes one after another, each where the one before it ended, up to the first
that fails. -/
def writeEach (now : UInt32) (text : String) :
    (offset : Nat) → List (List UInt8) → EStateM Failure FileSystem Unit
  | _, [] => pure ()
  | offset, piece :: rest => do
    let _ ← perform now (.write text offset piece)
    writeEach now text (offset + piece.length) rest

theorem writeEach_cons {now : UInt32} {text : String} {offset : Nat} {piece : List UInt8}
    {rest : List (List UInt8)} {fs fs' : FileSystem} :
    writeEach now text offset (piece :: rest) fs = .ok () fs' ↔ ∃ response middle,
      perform now (.write text offset piece) fs = .ok response middle ∧
        writeEach now text (offset + piece.length) rest middle = .ok () fs' := by
  simp only [writeEach, bind, EStateM.bind]
  cases perform now (.write text offset piece) fs with
  | ok response middle =>
    constructor
    · intro h
      exact ⟨response, middle, rfl, h⟩
    · rintro ⟨_, _, heq, h⟩
      cases heq
      exact h
  | error failure middle =>
    constructor
    · intro h
      cases h
    · rintro ⟨_, _, heq, -⟩
      cases heq

/-- Writing some bytes at once and writing them in pieces come to the same. -/
structure JoinsPieces (fs : FileSystem) (now : UInt32) (text : String) (offset : Nat)
    (pieces : List (List UInt8)) : Prop where
  granted : (∃ response fs', perform now (.write text offset pieces.flatten) fs =
      .ok response fs') ↔ ∃ fs', writeEach now text offset pieces fs = .ok () fs'
  identical : ∀ {response fs₁ fs₂},
    perform now (.write text offset pieces.flatten) fs = .ok response fs₁ →
    writeEach now text offset pieces fs = .ok () fs₂ → fs₁.content.Identical fs₂.content

theorem exists_perform_iff {fs : FileSystem} {now : UInt32} {request : Request} :
    (∃ response fs', perform now request fs = .ok response fs') ↔
      ∃ response, fs.outcome now request = .ok response := by
  rw [outcome]
  cases perform now request fs with
  | ok response fs' => exact ⟨fun _ => ⟨response, rfl⟩, fun _ => ⟨response, fs', rfl⟩⟩
  | error failure fs' =>
    constructor
    · rintro ⟨_, _, hgranted⟩
      cases hgranted
    · rintro ⟨_, hgranted⟩
      cases hgranted

section

variable {fs fs' : FileSystem} {diskSize now : UInt32} (hsound : fs.content.Sound diskSize)
  (hfaults : fs.device.faults = Faults.none) {text : String} {path : Path} {id : UInt32}

include hsound

theorem FileAt.unique (hfile : fs.FileAt text path id) {path' : Path} {id' : UInt32}
    (hfile' : fs.FileAt text path' id') : id' = id := by
  obtain ⟨htext, hwalk, -⟩ := (fileAt_iff hsound.mounted).mp hfile
  obtain ⟨htext', hwalk', -⟩ := (fileAt_iff hsound.mounted).mp hfile'
  obtain rfl := Except.ok.inj (htext.symm.trans htext')
  exact Except.ok.inj (hwalk'.symm.trans hwalk)

theorem FileAt.resolve (hfile : fs.FileAt text path id) :
    fs.content.disk.resolve text 0 = .ok id ∧ (fs.content.disk.inode id).isRegular = true := by
  obtain ⟨htext, hwalk, hregular⟩ := (fileAt_iff hsound.mounted).mp hfile
  exact ⟨(Disk.resolve_zero htext).trans hwalk, hregular⟩

include hfaults

theorem content_of_same {other other' : FileSystem} {request : Request}
    {response response' : Response} (hperform : perform now request fs = .ok response fs')
    (hsame : other.content = fs.content) (hfaults' : other.device.faults = Faults.none)
    (hother : perform now request other = .ok response' other') :
    other'.content = fs'.content := by
  have hcontent := content_after hsound hfaults now request
  have hcontent' := content_after (hsame.symm ▸ hsound) hfaults' now request
  have hvolume : other.volume = fs.volume := congrArg Content.volume hsame
  have hdisk : other.device.disk = fs.device.disk := congrArg Content.disk hsame
  rw [after_of_ok hperform] at hcontent
  rw [after_of_ok hother, hvolume, hdisk, hsame] at hcontent'
  exact hcontent'.trans hcontent.symm

variable (hfile : fs.FileAt text path id) {offset : Nat}

include hfile

theorem write_extends {bytes : List UInt8} (hbytes : bytes ≠ []) {response : Response}
    (hperform : perform now (.write text offset bytes) fs = .ok response fs') :
    ∃ blocks, fs.content.volume.bitmap.firstFit reservedBlocks
        (blocksToHold (offset + bytes.length) - (fs.content.disk.inode id).blockCount) =
          .ok blocks ∧
      fs.content.Extends diskSize id (offset + bytes.length) blocks ∧
      fs'.content =
        fs.content.after ((fs.content.disk.inode id).writing id now offset bytes blocks) := by
  obtain ⟨hresolve, hregular⟩ := hfile.resolve hsound
  obtain ⟨update, hplan, -, hcontent⟩ := granted_of_perform hsound hfaults
    (transacts_write now text offset bytes) hperform
  obtain ⟨other, hother, -, -, hcases⟩ := hsound.safe.of_write hplan
  obtain rfl := Except.ok.inj (hresolve.symm.trans hother)
  obtain ⟨hnil, -⟩ | ⟨-, blocks, hfit, hextends, rfl⟩ := hcases
  · exact absurd hnil hbytes
  · exact ⟨blocks, hfit, hextends, hcontent⟩

theorem content_of_write_nil {response : Response}
    (hperform : perform now (.write text offset []) fs = .ok response fs') :
    offset ≤ (fs.file id).bytes.length ∧ fs'.content = fs.content := by
  obtain ⟨hresolve, hregular⟩ := hfile.resolve hsound
  obtain ⟨update, hplan, -, hcontent⟩ := granted_of_perform hsound hfaults
    (transacts_write now text offset []) hperform
  obtain ⟨other, hother, -, hoffset, hcases⟩ := hsound.safe.of_write hplan
  obtain rfl := Except.ok.inj (hresolve.symm.trans hother)
  obtain ⟨-, rfl⟩ | ⟨hnil, -⟩ := hcases
  · rw [length_bytes]
    exact ⟨hoffset, hcontent⟩
  · exact absurd rfl hnil

theorem exists_write_iff (bytes : List UInt8) :
    (∃ response fs', perform now (.write text offset bytes) fs = .ok response fs') ↔
      offset ≤ (fs.file id).bytes.length ∧ offset + bytes.length ≤ maxFileSize ∧
        blocksToHold (max (fs.file id).bytes.length (offset + bytes.length)) ≤
          blocksToHold (fs.file id).bytes.length + fs.content.free := by
  obtain ⟨hresolve, hregular⟩ := hfile.resolve hsound
  by_cases hbytes : bytes = []
  · subst hbytes
    have hlimit := (hsound.mounted.consistent.formed (Disk.resolve_reachable hresolve)).length_le
    rw [← length_bytes] at hlimit
    constructor
    · rintro ⟨response, fs', hperform⟩
      obtain ⟨hoffset, -⟩ := content_of_write_nil hsound hfaults hfile hperform
      refine ⟨hoffset, Nat.le_trans hoffset hlimit, ?_⟩
      rw [List.length_nil, Nat.add_zero, Nat.max_eq_left hoffset]
      exact Nat.le_add_right _ _
    · rintro ⟨hoffset, -⟩
      exact ⟨_, (write_nothing_refines hsound hfaults hresolve hregular hoffset).imp
        fun _ hwritten => hwritten.1⟩
  · rw [exists_perform_iff, write_outcome hsound hfaults hfile hbytes]
    constructor
    · rintro ⟨response, houtcome⟩
      split at houtcome
      · cases houtcome
      · split at houtcome
        · cases houtcome
        · split at houtcome
          · cases houtcome
          · omega
    · rintro ⟨hoffset, hlimit, hfree⟩
      rw [if_neg (Nat.not_lt.mpr hoffset), if_neg (Nat.not_lt.mpr hlimit), if_neg (by omega)]
      exact ⟨_, rfl⟩

theorem write_leaves {bytes : List UInt8} {response : Response}
    (hperform : perform now (.write text offset bytes) fs = .ok response fs') :
    fs'.FileAt text path id ∧
      (fs'.file id).bytes.length = max (fs.file id).bytes.length (offset + bytes.length) ∧
      fs'.content.free + blocksToHold (fs'.file id).bytes.length =
        fs.content.free + blocksToHold (fs.file id).bytes.length := by
  obtain ⟨hresolve, hregular⟩ := hfile.resolve hsound
  obtain ⟨path', id', hfile', hfree⟩ := free_of_write hsound hfaults hperform
  obtain rfl := hfile.unique hsound hfile'
  have hleft : fs'.nodes = fs.nodes ∧
      (fs'.file id').bytes.length = max (fs.file id').bytes.length (offset + bytes.length) := by
    by_cases hbytes : bytes = []
    · subst hbytes
      obtain ⟨hoffset, hcontent⟩ := content_of_write_nil hsound hfaults hfile hperform
      rw [nodes, nodes, file, file, hcontent, List.length_nil, Nat.add_zero]
      exact ⟨rfl, (Nat.max_eq_left hoffset).symm⟩
    · obtain ⟨hoffset, -, hupdates⟩ :=
        write_refines hsound hfaults hresolve hbytes hperform
      refine ⟨hupdates.nodes, ?_⟩
      rw [hupdates.file, List.length_append, List.length_append, List.length_take,
        List.length_drop]
      omega
  refine ⟨⟨hfile.spelled, ?_, ?_⟩, hleft.2, hfree⟩
  · rw [hleft.1]
    exact hfile.walk
  · rw [hleft.1]
    exact hfile.file

/-! ### Two pieces -/

/-- Two pieces are written one after the other just when both are written at once. -/
theorem exists_write_append_iff (front back : List UInt8) :
    (∃ response fs', perform now (.write text offset (front ++ back)) fs = .ok response fs') ↔
      ∃ response middle, perform now (.write text offset front) fs = .ok response middle ∧
        ∃ response fs', perform now (.write text (offset + front.length) back) middle =
          .ok response fs' := by
  have hstop : offset + (front ++ back).length = offset + front.length + back.length := by
    rw [List.length_append, Nat.add_assoc]
  rw [exists_write_iff hsound hfaults hfile, hstop]
  constructor
  · rintro ⟨hoffset, hlimit, hfree⟩
    have hmono := blocksToHold_mono (show max (fs.file id).bytes.length (offset + front.length) ≤
      max (fs.file id).bytes.length (offset + front.length + back.length) by omega)
    obtain ⟨response, middle, hfront⟩ := (exists_write_iff hsound hfaults hfile front).mpr
      ⟨hoffset, by omega, by omega⟩
    obtain ⟨hfaults', hsound'⟩ := sound_of_perform hsound hfaults hfront
    obtain ⟨hfile', hlength, hspace⟩ := write_leaves hsound hfaults hfile hfront
    have hmax : max (middle.file id).bytes.length (offset + front.length + back.length) =
        max (fs.file id).bytes.length (offset + front.length + back.length) := by omega
    refine ⟨response, middle, hfront,
      (exists_write_iff hsound' hfaults' hfile' back).mpr ⟨by omega, hlimit, ?_⟩⟩
    rw [hmax]
    omega
  · rintro ⟨response, middle, hfront, hback⟩
    obtain ⟨hoffset, -, -⟩ :=
      (exists_write_iff hsound hfaults hfile front).mp ⟨response, middle, hfront⟩
    obtain ⟨hfaults', hsound'⟩ := sound_of_perform hsound hfaults hfront
    obtain ⟨hfile', hlength, hspace⟩ := write_leaves hsound hfaults hfile hfront
    obtain ⟨-, hlimit, hfree⟩ := (exists_write_iff hsound' hfaults' hfile' back).mp hback
    have hmax : max (middle.file id).bytes.length (offset + front.length + back.length) =
        max (fs.file id).bytes.length (offset + front.length + back.length) := by omega
    rw [hmax] at hfree
    exact ⟨hoffset, hlimit, by omega⟩

theorem write_append_identical {front back : List UInt8} {middle last whole : FileSystem}
    {response response' response'' : Response}
    (hfront : perform now (.write text offset front) fs = .ok response middle)
    (hback : perform now (.write text (offset + front.length) back) middle = .ok response' last)
    (hboth : perform now (.write text offset (front ++ back)) fs = .ok response'' whole) :
    whole.content.Identical last.content := by
  obtain ⟨hfaults', hsound'⟩ := sound_of_perform hsound hfaults hfront
  obtain ⟨hfile', -⟩ := write_leaves hsound hfaults hfile hfront
  by_cases hfrontNil : front = []
  · subst hfrontNil
    obtain ⟨-, hsame⟩ := content_of_write_nil hsound hfaults hfile hfront
    rw [content_of_same hsound hfaults hboth hsame hfaults' hback]
    exact .refl _
  by_cases hbackNil : back = []
  · subst hbackNil
    obtain ⟨-, hsame⟩ := content_of_write_nil hsound' hfaults' hfile' hback
    rw [List.append_nil, hfront] at hboth
    cases hboth
    rw [hsame]
    exact .refl _
  · obtain ⟨first, hfirst, hextends, hmiddle⟩ :=
      write_extends hsound hfaults hfile hfrontNil hfront
    obtain ⟨second, hsecond, hextends', hlast⟩ :=
      write_extends hsound' hfaults' hfile' hbackNil hback
    obtain ⟨blocks, hblocks, -, hwhole⟩ :=
      write_extends hsound hfaults hfile (List.append_ne_nil_of_left_ne_nil hfrontNil back) hboth
    have hfound := hsound.mounted.found_append hextends hfirst hmiddle hsecond
    obtain rfl := Except.ok.inj (hfound.symm.trans hblocks)
    rw [hlast, hwhole]
    exact (hsound.writing_append hextends hfirst hmiddle hsecond hextends').symm

/-! ### Any number of pieces -/

omit hsound hfaults hfile in
theorem joinsPieces_single (fs : FileSystem) (now : UInt32) (text : String) (offset : Nat)
    (piece : List UInt8) : fs.JoinsPieces now text offset [piece] := by
  have hsingle : [piece].flatten = piece := by
    rw [List.flatten_cons, List.flatten_nil, List.append_nil]
  constructor
  · rw [hsingle]
    constructor
    · rintro ⟨response, fs', hperform⟩
      exact ⟨fs', writeEach_cons.mpr ⟨response, fs', hperform, rfl⟩⟩
    · rintro ⟨fs', heach⟩
      obtain ⟨response, middle, hperform, -⟩ := writeEach_cons.mp heach
      exact ⟨response, middle, hperform⟩
  · intro response whole last hperform heach
    obtain ⟨response', middle, hperform', hnone⟩ := writeEach_cons.mp heach
    rw [hsingle, hperform'] at hperform
    cases hperform
    cases hnone
    exact .refl _

/-- If the rest may be written at once where the first piece ended, all may. -/
theorem joinsPieces_cons {piece : List UInt8} {rest : List (List UInt8)}
    (hrest : ∀ {response middle}, perform now (.write text offset piece) fs =
      .ok response middle → middle.JoinsPieces now text (offset + piece.length) rest) :
    fs.JoinsPieces now text offset (piece :: rest) := by
  have hflatten : (piece :: rest).flatten = piece ++ rest.flatten := List.flatten_cons
  constructor
  · rw [hflatten, exists_write_append_iff hsound hfaults hfile]
    constructor
    · rintro ⟨response, middle, hpiece, hmore⟩
      obtain ⟨fs', heach⟩ := (hrest hpiece).granted.mp hmore
      exact ⟨fs', writeEach_cons.mpr ⟨response, middle, hpiece, heach⟩⟩
    · rintro ⟨fs', heach⟩
      obtain ⟨response, middle, hpiece, hmore⟩ := writeEach_cons.mp heach
      exact ⟨response, middle, hpiece, (hrest hpiece).granted.mpr ⟨fs', hmore⟩⟩
  · intro response whole last hboth heach
    rw [hflatten] at hboth
    obtain ⟨response', middle, hpiece, hmore⟩ := writeEach_cons.mp heach
    obtain ⟨response'', second, hsecond⟩ := (hrest hpiece).granted.mpr ⟨last, hmore⟩
    exact (write_append_identical hsound hfaults hfile hpiece hsecond hboth).trans
      ((hrest hpiece).identical hsecond hmore)

end

theorem joinsPieces_of_sound {diskSize now : UInt32} {text : String} {path : Path} {id : UInt32}
    {pieces : List (List UInt8)} (hpieces : pieces ≠ []) {fs : FileSystem}
    (hsound : fs.content.Sound diskSize) (hfaults : fs.device.faults = Faults.none)
    (hfile : fs.FileAt text path id) (offset : Nat) : fs.JoinsPieces now text offset pieces := by
  induction pieces generalizing fs offset with
  | nil => exact absurd rfl hpieces
  | cons piece rest ih =>
    by_cases hrest : rest = []
    · subst hrest
      exact joinsPieces_single fs now text offset piece
    · refine joinsPieces_cons hsound hfaults hfile fun {response middle} hpiece => ?_
      obtain ⟨hfaults', hsound'⟩ := sound_of_perform hsound hfaults hpiece
      obtain ⟨hfile', -⟩ := write_leaves hsound hfaults hfile hpiece
      exact ih hrest hsound' hfaults' hfile' (offset + piece.length)

/-- Whatever calls came before, splitting a write does not matter. -/
theorem Reached.joins_pieces {diskSize : UInt32} {fs : FileSystem} (h : Reached diskSize fs)
    {text : String} {path : Path} {id : UInt32} (hfile : fs.FileAt text path id) (now : UInt32)
    (offset : Nat) {pieces : List (List UInt8)} (hpieces : pieces ≠ []) :
    fs.JoinsPieces now text offset pieces :=
  joinsPieces_of_sound hpieces h.sound.2 h.sound.1 hfile offset

/-- Three pieces, one of them empty, are written to a new file. -/
theorem joins_pieces_after_create : ∃ volume device fs id,
    Device.format 16 0 (Device.ofDisk (Disk.blank 16)) = .ok volume device ∧
      perform 1 (.create "/a" 0o644 .regular ⟨0, 0⟩) ⟨device, volume⟩ = .ok (.inode id) fs ∧
      fs.FileAt "/a" [[97]] id ∧ fs.JoinsPieces 2 "/a" 0 [[1, 2], [], [3]] ∧
      ∃ fs', writeEach 2 "/a" 0 [[1, 2], [], [3]] fs = .ok () fs' := by
  obtain ⟨volume, device, fs, id, hformat, hperform, hafter, hfile, hempty, hfree⟩ :=
    exists_created_file
  have hjoins : fs.JoinsPieces 2 "/a" 0 [[1, 2], [], [3]] :=
    hafter.joins_pieces hfile 2 0 (by decide)
  have hroom : ∃ response fs', perform 2 (.write "/a" 0 [[1, 2], [], [3]].flatten) fs =
      .ok response fs' :=
    (exists_write_iff hafter.sound.2 hafter.sound.1 hfile _).mpr
      (by rw [hempty, hfree]; decide)
  exact ⟨volume, device, fs, id, hformat, hperform, hfile, hjoins, hjoins.granted.mp hroom⟩

end FileSystem

end BlockFS
