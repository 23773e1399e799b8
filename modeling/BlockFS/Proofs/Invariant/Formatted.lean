import BlockFS.Proofs.Codec.Directory
import BlockFS.Proofs.Invariant.Sound
import BlockFS.Proofs.Operation.Format

/-!
The tree of an empty file system is its root, which has no entries. So what a layout mounts is
sound, and every state that calls lead to from there on a device that does not fail is sound too.
-/

set_option autoImplicit false
set_option relaxedAutoImplicit false

namespace BlockFS

namespace Disk

variable {d : Disk} {diskSize now : UInt32}

theorem laidOut_superblock :
    Superblock.decode ((d.laidOut diskSize now).block superblockId) = Superblock.ofSize diskSize := by
  rw [block_laidOut, if_neg (by decide), if_neg (by decide), if_neg (by decide), if_pos rfl,
    Superblock.decode_encode]

theorem laidOut_root : (d.laidOut diskSize now).inode rootId = Volume.emptyRoot now := by
  rw [inode, block_laidOut, if_neg (by decide), if_pos rfl, Inode.decode_encode]

theorem emptyRoot_spec (now : UInt32) : (Volume.emptyRoot now).WellFormed ∧
    (Volume.emptyRoot now).isDirectory = true ∧
      (Volume.emptyRoot now).slotsBlock = Volume.rootSlotsId :=
  Inode.fresh_directory 0o755 ⟨0, 0⟩ now Volume.rootSlotsId

theorem laidOut_slots : (d.laidOut diskSize now).slots rootId = Directory.empty := by
  rw [slots, laidOut_root, (emptyRoot_spec now).2.2, block_laidOut, if_pos rfl,
    Directory.decode_zero]

theorem laidOut_not_links (k : Fin slotCount) (child : UInt32) :
    ¬ (d.laidOut diskSize now).Links rootId k child := by
  intro hlink
  have hused := hlink.used
  rw [laidOut_slots, Directory.get_empty] at hused
  cases hused

theorem laidOut_atDepth {depth : Nat} {id : UInt32}
    (h : (d.laidOut diskSize now).AtDepth depth id) : depth = 0 ∧ id = rootId := by
  induction h with
  | root => exact ⟨rfl, rfl⟩
  | child hparent hlink ih =>
    rw [ih.2] at hlink
    exact absurd hlink (laidOut_not_links _ _)

theorem laidOut_reachable_iff {id : UInt32} :
    (d.laidOut diskSize now).Reachable id ↔ id = rootId := by
  constructor
  · rintro ⟨depth, hdepth⟩
    exact (laidOut_atDepth hdepth).2
  · rintro rfl
    exact reachable_root

theorem laidOut_refers_iff {place : Place} {block : UInt32} :
    (d.laidOut diskSize now).Refers place block ↔ (place = .root ∧ block = rootId) ∨
      (place = slotsPlace rootId ∧ block = Volume.rootSlotsId) := by
  obtain ⟨-, hdirectory, hslots⟩ := emptyRoot_spec now
  cases place with
  | root => simp [Refers]
  | slot directory k =>
    simp only [Refers, laidOut_reachable_iff, reduceCtorEq, false_and, or_self, iff_false, not_and]
    rintro rfl hlink
    exact laidOut_not_links _ _ hlink
  | pointer inode k =>
    simp only [Refers, laidOut_reachable_iff, reduceCtorEq, false_and, false_or,
      Place.pointer.injEq]
    constructor
    · rintro ⟨rfl, hk, hpointer⟩
      rw [laidOut_root, Inode.held, if_pos hdirectory] at hk
      have hzero : k = ⟨0, pointerCount_pos⟩ := Fin.ext (Nat.lt_one_iff.mp hk)
      rw [laidOut_root, hzero] at hpointer
      exact ⟨⟨rfl, hzero⟩, hpointer.symm.trans hslots⟩
    · rintro ⟨⟨rfl, rfl⟩, hblock⟩
      rw [laidOut_root, Inode.held, if_pos hdirectory]
      exact ⟨rfl, Nat.one_pos, hslots.trans hblock.symm⟩

theorem laidOut_consistent : (d.laidOut diskSize now).Consistent diskSize where
  formed hid := by
    rw [laidOut_reachable_iff.mp hid, laidOut_root]
    exact (emptyRoot_spec now).1
  root_directory := by
    rw [laidOut_root]
    exact (emptyRoot_spec now).2.1
  root_slots := by
    rw [laidOut_root]
    exact (emptyRoot_spec now).2.2
  inside hplace hroot hslots := by
    rcases laidOut_refers_iff.mp hplace with ⟨heq, -⟩ | ⟨heq, -⟩
    · exact absurd heq hroot
    · exact absurd heq hslots
  distinct hplace hplace' := by
    rcases laidOut_refers_iff.mp hplace with ⟨rfl, rfl⟩ | ⟨rfl, rfl⟩
    · rcases laidOut_refers_iff.mp hplace' with ⟨rfl, -⟩ | ⟨-, heq⟩
      · rfl
      · exact absurd heq (by decide)
    · rcases laidOut_refers_iff.mp hplace' with ⟨-, heq⟩ | ⟨rfl, -⟩
      · exact absurd heq (by decide)
      · rfl
  named hid hlink := by
    rw [laidOut_reachable_iff.mp hid] at hlink
    exact absurd hlink (laidOut_not_links _ _)
  unique hid hlink := by
    rw [laidOut_reachable_iff.mp hid] at hlink
    exact absurd hlink (laidOut_not_links _ _)
  shallow hdepth := by
    rw [(laidOut_atDepth hdepth).1]
    exact Nat.zero_le _

theorem laidOut_inUse_iff {block : UInt32} :
    (d.laidOut diskSize now).InUse block ↔ block.toNat < 4 := by
  have hnumbers : block.toNat < 4 ↔ block = superblockId ∨ block = bitmapId ∨ block = rootId ∨
      block = Volume.rootSlotsId := by
    simp only [← UInt32.toNat_inj]
    have h0 : superblockId.toNat = 0 := rfl
    have h1 : bitmapId.toNat = 1 := rfl
    have h2 : rootId.toNat = 2 := rfl
    have h3 : Volume.rootSlotsId.toNat = 3 := rfl
    omega
  rw [hnumbers, InUse]
  refine or_congr_right (or_congr_right ⟨?_, ?_⟩)
  · rintro ⟨place, hplace⟩
    exact (laidOut_refers_iff.mp hplace).imp And.right And.right
  · rintro (rfl | rfl)
    · exact ⟨.root, laidOut_refers_iff.mpr (.inl ⟨rfl, rfl⟩)⟩
    · exact ⟨slotsPlace rootId, laidOut_refers_iff.mpr (.inr ⟨rfl, rfl⟩)⟩

end Disk

theorem Bitmap.isSet_emptyMap (i : Nat) : isSet Volume.emptyMap i = decide (i < 4) := by
  by_cases hi : i < maxDiskBlocks
  · have hbyte : ∀ (k : Nat) (hk : k < blockSize),
        Volume.emptyMap[k] = if k = 0 then 15 else 0 := by
      intro k hk
      have hlist : Volume.emptyMap.toList = 15 :: List.replicate 4095 0 := by
        rw [Volume.emptyMap, Block.toList_padded]
        rfl
      rw [← Vector.getElem_toList (by rw [Vector.length_toList]; exact hk)]
      simp only [hlist]
      cases k with
      | zero => rfl
      | succ k =>
        rw [List.getElem_cons_succ, List.getElem_replicate, if_neg (Nat.succ_ne_zero k)]
    rw [isSet_eq _ hi, hbyte]
    by_cases hlow : i / 8 = 0
    · have hall : ∀ j < 8, (15 : UInt8).toNat.testBit j = decide (j < 4) := by decide
      rw [if_pos hlow, hall _ (Nat.mod_lt _ (by decide))]
      have hmod : i % 8 = i := by omega
      rw [hmod]
    · rw [if_neg hlow]
      have hfour : ¬ i < 4 := by omega
      simp [hfour]
  · rw [isSet_of_ge _ (Nat.le_of_not_lt hi)]
    have hlimit : maxDiskBlocks = 32768 := rfl
    have hfour : ¬ i < 4 := by omega
    simp [hfour]

namespace Content

variable {d : Disk} {diskSize : UInt32}

theorem mounted_laidOut (hfit : Superblock.checkFit diskSize d.size = .ok ()) (now : UInt32)
    {v : Volume} (hsuper : v.superblock = Superblock.ofSize diskSize)
    (hblocks : v.bitmap.blocks = diskSize) :
    (Content.mk (d.laidOut diskSize now) v).Mounted diskSize := by
  rw [Superblock.checkFit] at hfit
  split at hfit
  · cases hfit
  · rename_i hbounds
    obtain ⟨hlow, hbounds⟩ := not_or.mp hbounds
    obtain ⟨hhigh, hdevice⟩ := not_or.mp hbounds
    refine ⟨hsuper, hblocks, UInt32.not_lt.mp hlow, Nat.le_of_not_lt hhigh, ?_,
      Disk.laidOut_superblock, Disk.laidOut_consistent⟩
    show diskSize.toNat ≤ (d.laidOut diskSize now).size
    rw [Disk.laidOut, Disk.size_withBlocks]
    exact Nat.le_of_not_lt hdevice

theorem sound_laidOut (hfit : Superblock.checkFit diskSize d.size = .ok ()) (now : UInt32) :
    ∃ volume, (Volume.load d.size).answer (d.laidOut diskSize now) = .ok volume ∧
      (Content.mk (d.laidOut diskSize now) volume).Sound diskSize := by
  have hany := mounted_laidOut hfit now (v := ⟨Superblock.ofSize diskSize,
    ⟨Volume.emptyMap, diskSize⟩, ⟨0, 0⟩⟩) rfl rfl
  have hsize : (d.laidOut diskSize now).size = d.size := Disk.size_withBlocks d _ _
  have hmap : (d.laidOut diskSize now).block bitmapId = Volume.emptyMap := by
    rw [Disk.block_laidOut, if_neg (by decide), if_neg (by decide), if_pos rfl]
  obtain ⟨usage, hload, hcounts⟩ := hany.load_answer
  refine ⟨_, by rw [← hsize]; exact hload, mounted_laidOut hfit now rfl rfl, fun block => ?_, rfl,
    hcounts⟩
  show Bitmap.isSet ((d.laidOut diskSize now).block bitmapId) block.toNat = true ↔
    (d.laidOut diskSize now).InUse block
  rw [hmap, Bitmap.isSet_emptyMap, decide_eq_true_iff, Disk.laidOut_inUse_iff]

theorem Sound.volume_eq {c : Content} (h : c.Sound diskSize) {usage : Usage}
    (hcounts : usage.Counts ⟨c.disk.block bitmapId, diskSize⟩) :
    c.volume = ⟨Superblock.ofSize diskSize, ⟨c.disk.block bitmapId, diskSize⟩, usage⟩ := by
  have hbitmap : c.volume.bitmap = ⟨c.disk.block bitmapId, diskSize⟩ := by
    rw [h.tracks.saved, ← h.mounted.bitmap]
  have husage : usage = c.volume.usage := (hbitmap ▸ h.tracks.counts).unique hcounts
  rw [← h.mounted.superblock, ← hbitmap, husage]

theorem Sound.load_answer {c : Content} (h : c.Sound diskSize) :
    (Volume.load c.disk.size).answer c.disk = .ok c.volume := by
  obtain ⟨usage, hanswer, hcounts⟩ := h.mounted.load_answer
  rw [hanswer, h.volume_eq hcounts]

end Content

theorem Device.format_ok {d : Device} (hfaults : d.faults = Faults.none) {diskSize : UInt32}
    (hfit : Superblock.checkFit diskSize d.disk.size = .ok ()) (now : UInt32) :
    ∃ volume d', format diskSize now d = .ok volume d' := by
  obtain ⟨volume, hload, hsound⟩ := Content.sound_laidOut hfit now
  have hfour : (4 : Nat) ≤ d.disk.size := by
    have hdevice := hsound.mounted.device
    have hlow := UInt32.le_iff_toNat_le.mp hsound.mounted.low
    have hsize : (d.disk.laidOut diskSize now).size = d.disk.size := Disk.size_withBlocks _ _ _
    have hfirst : firstFreeId.toNat = 4 := rfl
    rw [hsize] at hdevice
    omega
  obtain ⟨d', hformat⟩ := format_of_faultless hfaults hfit hfour hload
  exact ⟨volume, d', hformat⟩

theorem Device.exists_formatted_blank : ∃ volume device,
    Device.format 16 0 (Device.ofDisk (Disk.blank 16)) = .ok volume device :=
  format_ok rfl rfl 0

theorem Device.sound_of_format {d d' : Device} {diskSize now : UInt32} {volume : Volume}
    (h : format diskSize now d = .ok volume d') :
    (Content.mk d'.disk volume).Sound diskSize := by
  obtain ⟨hfit, -, hdisk, hanswer⟩ := of_format h
  obtain ⟨loaded, hload, hsound⟩ := Content.sound_laidOut hfit now
  rw [hdisk] at hanswer ⊢
  obtain rfl := Except.ok.inj (hload.symm.trans hanswer)
  exact hsound

theorem Device.slots_of_format {d d' : Device} {diskSize now : UInt32} {volume : Volume}
    (h : format diskSize now d = .ok volume d') : d'.disk.slots rootId = Directory.empty := by
  rw [(of_format h).2.2.1]
  exact Disk.laidOut_slots

theorem Device.block_of_format {d d' : Device} {diskSize now : UInt32} {volume : Volume}
    (h : format diskSize now d = .ok volume d') {block : UInt32} (hblock : firstFreeId ≤ block) :
    d'.disk.block block = d.disk.block block := by
  have hne : ∀ id < firstFreeId, id ≠ block := fun id hid heq =>
    UInt32.not_lt.mpr hblock (heq ▸ hid)
  rw [(of_format h).2.2.1, Disk.block_laidOut, if_neg (hne _ (by decide)),
    if_neg (hne _ (by decide)), if_neg (hne _ (by decide)), if_neg (hne _ (by decide))]

theorem Device.clear_of_format {d d' : Device} {diskSize now : UInt32} {volume : Volume}
    (h : format diskSize now d = .ok volume d') :
    volume.bitmap.clear reservedBlocks.toNat = List.range' 4 (diskSize.toNat - 4) := by
  have hsound := sound_of_format h
  have hset : ∀ bit < diskSize.toNat, Bitmap.isSet volume.bitmap.map bit = decide (bit < 4) := by
    intro bit hbit
    have hword : (UInt32.ofNat bit).toNat = bit :=
      UInt32.toNat_ofNat_of_lt' (Nat.lt_trans hbit diskSize.toNat_lt)
    have hused := hsound.tracks.marked (UInt32.ofNat bit)
    rw [(of_format h).2.2.1, Disk.laidOut_inUse_iff, hword] at hused
    exact Bool.eq_iff_iff.mpr (hused.trans decide_eq_true_iff.symm)
  have hblocks : volume.bitmap.blocks = diskSize := hsound.mounted.bitmap
  have hlow : 4 ≤ diskSize.toNat := UInt32.le_iff_toNat_le.mp hsound.mounted.low
  have hsplit : List.range' 2 (diskSize.toNat - 2) =
      2 :: 3 :: List.range' 4 (diskSize.toNat - 4) := by
    obtain ⟨rest, hrest⟩ := Nat.exists_eq_add_of_le' hlow
    rw [hrest, Nat.add_sub_cancel, Nat.add_sub_assoc (by decide)]
    rfl
  have hfront : ∀ bit < 4, Bitmap.isSet volume.bitmap.map bit = true := fun bit hbit => by
    rw [hset bit (Nat.lt_of_lt_of_le hbit hlow), decide_eq_true hbit]
  rw [Bitmap.clear, hblocks]
  show (List.range' 2 (diskSize.toNat - 2)).filter _ = _
  rw [hsplit, List.filter_cons_of_neg (by rw [hfront 2 (by decide)]; decide),
    List.filter_cons_of_neg (by rw [hfront 3 (by decide)]; decide), List.filter_eq_self]
  intro bit hbit
  obtain ⟨hfrom, hto⟩ := List.mem_range'_1.mp hbit
  rw [hset bit (by omega), decide_eq_false (Nat.not_lt.mpr hfrom)]
  rfl

theorem Device.firstFit_of_format {d d' : Device} {diskSize now : UInt32} {volume : Volume}
    (h : format diskSize now d = .ok volume d') (hroom : 4 < diskSize.toNat) :
    ∃ id, volume.bitmap.firstFit reservedBlocks 1 = .ok [id] := by
  obtain ⟨rest, hrest⟩ := Nat.exists_eq_add_of_lt hroom
  have hcount : diskSize.toNat - 4 = rest + 1 := by omega
  refine ⟨4, ?_⟩
  rw [Bitmap.firstFit_eq (sound_of_format h).mounted.fits reservedBlocks (by decide),
    clear_of_format h, List.length_range', if_pos (by omega), hcount]
  rfl

namespace FileSystem

theorem sound_after {fs : FileSystem} {diskSize : UInt32} (h : fs.content.Sound diskSize)
    (hfaults : fs.device.faults = Faults.none) (now : UInt32) (request : Request) :
    (fs.after now request).device.faults = Faults.none ∧
      (fs.after now request).content.Sound diskSize := by
  by_cases hrequest : request = .remount
  · subst hrequest
    obtain ⟨hsame, hcontent | ⟨volume, hload, hcontent⟩⟩ := after_remount fs now
    · rw [hcontent]
      exact ⟨hsame.trans hfaults, h⟩
    · obtain rfl := Except.ok.inj (h.load_answer.symm.trans hload)
      rw [hcontent]
      exact ⟨hsame.trans hfaults, h⟩
  · obtain ⟨hfaults', hcontent | ⟨effects, hplan, hcontent⟩⟩ := after_of_faultless h.mounted.fits
      hfaults now hrequest fun effects hplan => (h.restores_request hplan).1
    · rw [hcontent]
      exact ⟨hfaults', h⟩
    · rw [hcontent]
      exact ⟨hfaults', (h.restores_request hplan).2⟩

theorem sound_of_perform {fs fs' : FileSystem} {diskSize : UInt32} (h : fs.content.Sound diskSize)
    (hfaults : fs.device.faults = Faults.none) {now : UInt32} {request : Request}
    {response : Response} (hperform : perform now request fs = .ok response fs') :
    fs'.device.faults = Faults.none ∧ fs'.content.Sound diskSize :=
  after_of_ok hperform ▸ sound_after h hfaults now request

/-- Every state that is reached is sound. -/
theorem Reached.sound {diskSize : UInt32} {fs : FileSystem} (h : Reached diskSize fs) :
    fs.device.faults = Faults.none ∧ fs.content.Sound diskSize := by
  induction h with
  | formatted hfaults hformat =>
    exact ⟨(Device.of_format hformat).2.1.trans hfaults, Device.sound_of_format hformat⟩
  | called now request _ ih => exact sound_after ih.2 ih.1 now request

end FileSystem

end BlockFS
