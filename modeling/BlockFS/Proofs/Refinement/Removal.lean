import BlockFS.Proofs.Invariant.Formatted
import BlockFS.Proofs.Space.Balance
import BlockFS.Proofs.Volume.Resolution

/-!
Removing an entry resolves its path twice: once to the file that is to go, and once more, in two
stages, to the slot that is freed. What the disk holds does not matter, it may be damaged, have
cycles or share directories: as long as it does not change in between, both ways come to the same
slot, and of the whole disk one bit changes. The blocks of the file are given back after that, and
then their bits and no others are cleared.
-/

set_option autoImplicit false
set_option relaxedAutoImplicit false

namespace BlockFS

/-! ### Bits of a block of slots -/

namespace Directory

/-- The bit that says whether a slot is used, counted from the front of its block. -/
def usedBit (k : Fin slotCount) : Nat := 8 * (slotSize * k.val)

private theorem exists_bit {index : Nat} (h : index < maxDiskBlocks) :
    ∃ (k : Fin slotCount) (j : Fin slotSize) (bit : Nat), bit < 8 ∧
      index = 8 * (slotSize * k.val + j.val) + bit := by
  have hbyte : index / 8 < slotSize * slotCount := Nat.div_lt_of_lt_mul h
  refine ⟨⟨index / 8 / slotSize, Nat.div_lt_of_lt_mul hbyte⟩,
    ⟨index / 8 % slotSize, Nat.mod_lt _ (by decide)⟩, index % 8, Nat.mod_lt _ (by decide), ?_⟩
  rw [Nat.div_add_mod, Nat.div_add_mod]

theorem isSet_encode (d : Directory) (k : Fin slotCount) (j : Fin slotSize) {bit : Nat}
    (hbit : bit < 8) :
    Bitmap.isSet d.encode (8 * (slotSize * k.val + j.val) + bit) =
      ((d.get k).encode.get j).toNat.testBit bit := by
  have hinside := record_lt k j
  have hlimit : 8 * (slotSize * k.val + j.val) + bit < maxDiskBlocks := by
    have hblock : blockSize = 4096 := rfl
    have hmax : maxDiskBlocks = 32768 := rfl
    omega
  have hbyte : (8 * (slotSize * k.val + j.val) + bit) / 8 = slotSize * k.val + j.val := by omega
  have hrest : (8 * (slotSize * k.val + j.val) + bit) % 8 = bit := by omega
  have hrecord : (record d.encode k).get j = d.encode.get ⟨slotSize * k.val + j.val, hinside⟩ :=
    Vector.getElem_ofFn j.isLt
  rw [Bitmap.isSet_eq _ hlimit, ← record_encode, hrecord]
  simp only [hbyte, hrest]
  rfl

theorem isSet_usedBit (d : Directory) (k : Fin slotCount) :
    Bitmap.isSet d.encode (usedBit k) = (d.get k).used := by
  have hbit := d.isSet_encode k ⟨0, by decide⟩ (show 0 < 8 by decide)
  rwa [Slot.testBit_encode _ (by decide), if_pos rfl] at hbit

theorem isSet_encode_put_release (d : Directory) (k : Fin slotCount) (index : Nat) :
    Bitmap.isSet (d.put k (d.get k).release).encode index =
      if index = usedBit k then false else Bitmap.isSet d.encode index := by
  by_cases hlimit : index < maxDiskBlocks
  · obtain ⟨m, j, bit, hbit, rfl⟩ := exists_bit hlimit
    rw [isSet_encode _ _ _ hbit, isSet_encode _ _ _ hbit, get_put]
    -- The slots differ in the lowest bit of the first byte of one of them.
    by_cases hm : k = m
    · subst hm
      rw [if_pos rfl]
      by_cases hj : j.val = 0
      · obtain rfl : j = ⟨0, by decide⟩ := Fin.ext hj
        have hused : 8 * (slotSize * k.val + 0) + bit = usedBit k ↔ bit = 0 := by
          rw [usedBit]
          omega
        simp only [hused, Slot.testBit_encode _ hbit]
        split <;> rfl
      · rw [Slot.get_encode_release _ hj, if_neg (by rw [usedBit]; omega)]
    · have hne : k.val ≠ m.val := fun h => hm (Fin.ext h)
      have hlast : j.val < 32 := j.isLt
      have hother : 8 * (slotSize * m.val + j.val) + bit ≠ usedBit k := by
        show 8 * (32 * m.val + j.val) + bit ≠ 8 * (32 * k.val)
        omega
      rw [if_neg hm, if_neg hother]
  · have hge := Nat.le_of_not_lt hlimit
    rw [Bitmap.isSet_of_ge _ hge, Bitmap.isSet_of_ge _ hge, ite_self]

end Directory

namespace Disk

def freed (d : Disk) (parent : UInt32) (k : Fin slotCount) : Disk :=
  d.set (d.inode parent).slotsBlock
    ((d.slots parent).put k ((d.slots parent).get k).release).encode

theorem encode_slots (d : Disk) (id : UInt32) :
    (d.slots id).encode = d.block (d.inode id).slotsBlock := Directory.encode_decode _

/-- Of a whole disk, freeing a slot clears one bit. -/
theorem isSet_freed (d : Disk) (parent : UInt32) (k : Fin slotCount) (block : UInt32)
    (index : Nat) : Bitmap.isSet ((d.freed parent k).block block) index =
      if block = (d.inode parent).slotsBlock ∧ index = Directory.usedBit k then false
      else Bitmap.isSet (d.block block) index := by
  rw [freed, block_set]
  by_cases hblock : (d.inode parent).slotsBlock = block
  · subst hblock
    simp only [if_true, true_and, Directory.isSet_encode_put_release, encode_slots]
  · rw [if_neg hblock, if_neg fun h => hblock h.1.symm]

theorem isSet_freed_ne_iff {d : Disk} {parent : UInt32} {k : Fin slotCount}
    (hused : Bitmap.isSet (d.block (d.inode parent).slotsBlock) (Directory.usedBit k) = true)
    (block : UInt32) (index : Nat) :
    Bitmap.isSet ((d.freed parent k).block block) index ≠ Bitmap.isSet (d.block block) index ↔
      block = (d.inode parent).slotsBlock ∧ index = Directory.usedBit k := by
  rw [isSet_freed]
  split
  · rename_i hbit
    rw [hbit.1, hbit.2, hused]
    exact ⟨fun _ => ⟨rfl, rfl⟩, fun _ => nofun⟩
  · rename_i hbit
    exact ⟨fun h => absurd rfl h, fun h => absurd h hbit⟩

end Disk

/-! ### What a removal frees -/

/-- The calls that remove the entry at a path, with what each of them finds before it frees the
slot. -/
inductive Request.Removes (text : String) :
    Request → (Volume → Query (UInt32 × List UInt32)) → Prop
  | file : Removes text (.deleteFile text) fun v => v.condemnFile text
  | directory : Removes text (.deleteDirectory text) fun v => v.condemnDirectory text

namespace Request.Removes

variable {text : String} {request : Request} {condemn : Volume → Query (UInt32 × List UInt32)}
  {v : Volume} {disk : Disk} {id : UInt32} {blocks : List UInt32}

theorem of_condemn (h : request.Removes text condemn)
    (hcondemn : (condemn v).answer disk = .ok (id, blocks)) :
    (v.locate text 0).answer disk = .ok (id, disk.inode id) ∧ blocks = disk.released id := by
  cases h with
  | file =>
    obtain ⟨hlocate, -, -, hblocks⟩ := Volume.condemnFile_eq_ok.mp hcondemn
    exact ⟨hlocate, hblocks⟩
  | directory =>
    obtain ⟨hlocate, -, -, -, hblocks⟩ := Volume.condemnDirectory_eq_ok.mp hcondemn
    exact ⟨hlocate, hblocks⟩

theorem ne_root (h : request.Removes text condemn) (hroot : (disk.inode rootId).isDirectory = true)
    (hcondemn : (condemn v).answer disk = .ok (id, blocks)) : id ≠ rootId := by
  cases h with
  | file =>
    obtain ⟨-, hfile, -⟩ := Volume.condemnFile_eq_ok.mp hcondemn
    rintro rfl
    exact nomatch hfile.symm.trans hroot
  | directory => exact (Volume.condemnDirectory_eq_ok.mp hcondemn).2.1

theorem exists_name (h : request.Removes text condemn)
    (hroot : (disk.inode rootId).isDirectory = true)
    (hcondemn : (condemn v).answer disk = .ok (id, blocks)) :
    ∃ path name, Path.ofString text = .ok (path ++ [name]) := by
  obtain ⟨hlocate, -⟩ := h.of_condemn hcondemn
  cases htext : Path.ofString text with
  | error reason =>
    rw [Volume.locate, htext] at hlocate
    cases hlocate
  | ok path =>
    rcases List.eq_nil_or_concat path with rfl | ⟨path, name, rfl⟩
    · have hreach := Volume.reach_of_locate htext hlocate
      exact absurd (Except.ok.inj hreach).symm (h.ne_root hroot hcondemn)
    · exact ⟨path, name, congrArg Except.ok List.concat_eq_append⟩

end Request.Removes

namespace FileSystem

variable {fs fs₁ : FileSystem} {text : String} {request : Request}
  {condemn : Volume → Query (UInt32 × List UInt32)}

/-- The slot that a path leads to is freed: it is the slot of the last name in the directory before
it, it held the number that the whole path leads to, and of the whole disk the bit that says it is
used has changed. -/
structure Frees (fs fs' : FileSystem) (path : Path) (name : Name) (id : UInt32)
    (blocks : List UInt32) (parent : UInt32) (k : Fin slotCount) : Prop where
  target : (fs.volume.superblock.reach (path ++ [name]) 0).answer fs.device.disk = .ok id
  directory : (fs.volume.superblock.reach (path ++ [name]) 1).answer fs.device.disk = .ok parent
  slot : (fs.device.disk.slots parent).find name = some k
  inode : ((fs.device.disk.slots parent).get k).inode = id
  blocks : blocks = fs.device.disk.released id
  volume : fs'.volume = fs.volume
  wasUsed : Bitmap.isSet (fs.device.disk.block (fs.device.disk.inode parent).slotsBlock)
    (Directory.usedBit k) = true
  changed : ∀ block index,
    Bitmap.isSet (fs'.device.disk.block block) index ≠
        Bitmap.isSet (fs.device.disk.block block) index ↔
      block = (fs.device.disk.inode parent).slotsBlock ∧ index = Directory.usedBit k

private theorem transact_of_discard {plan : Volume → Query (Update Unit)}
    (hplan : ∀ v, plan v = condemn v >>= v.discard text) :
    transact plan = (do
      let (_, blocks) ← ask condemn
      let _ ← transact fun v => v.detach text
      commit (Effect.deallocate blocks)) := by
  have hask : ask plan = (do
      let condemned ← ask condemn
      let detached ← ask fun v => v.detach text
      return ⟨(), detached.effects ++ Effect.deallocate condemned.2⟩) := by
    rw [funext hplan, ask_bind]
    congr 1
    funext condemned
    exact ask_bind _ _
  simp only [transact, hask, bind_assoc, pure_bind, commit_append, bind_pure_unit]

/-- A call that removes an entry, one step after the other. -/
theorem perform_of_removes (h : request.Removes text condemn) (now : UInt32) :
    perform now request = (do
      let (_, blocks) ← ask condemn
      let _ ← transact fun v => v.detach text
      commit (Effect.deallocate blocks)
      return Response.done) := by
  cases h with
  | file =>
    rw [perform, deleteFile, transact_of_discard fun v => v.deleteFile_eq text]
    simp only [bind_assoc]
  | directory =>
    rw [perform, deleteDirectory, transact_of_discard fun v => v.deleteDirectory_eq text]
    simp only [bind_assoc]

theorem exists_frees (h : request.Removes text condemn) (hfaults : fs.device.faults = Faults.none)
    {path : Path} {name : Name} (htext : Path.ofString text = .ok (path ++ [name])) {id : UInt32}
    {blocks : List UInt32} (hask : ask condemn fs = .ok (id, blocks) fs₁) :
    ∃ parent k fs₂, transact (fun v => v.detach text) fs₁ = .ok id fs₂ ∧
      fs.Frees fs₂ path name id blocks parent k := by
  obtain ⟨hcondemn, hfaults₁, hcontent₁⟩ := of_ask_of_faultless hfaults hask
  obtain ⟨hlocate, hblocks⟩ := h.of_condemn hcondemn
  obtain ⟨parent, k, hparent, hends, hfind, hinode⟩ := Volume.endsIn_of_locate htext hlocate
  -- The question left the disk as it was, so the second resolution is of the same one.
  have hdisk₁ : fs₁.device.disk = fs.device.disk := congrArg Content.disk hcontent₁
  have hvolume₁ : fs₁.volume = fs.volume := congrArg Content.volume hcontent₁
  have hdetach : (fs₁.volume.detach text).answer fs₁.device.disk =
      .ok ⟨id, [fs.device.disk.detached parent k]⟩ := by
    rw [hdisk₁, hvolume₁]
    exact Volume.detach_eq_ok.mpr ⟨parent, k, hends, by rw [hinode]⟩
  obtain ⟨fs₂, htransact, hdisk₂, hvolume₂⟩ :=
    transact_of_store (fun v => v.detach text) hfaults₁ hdetach
      (by rw [hdisk₁]; exact hends.inside)
  replace hdisk₂ : fs₂.device.disk = fs.device.disk.freed parent k := by
    rw [hdisk₂, hdisk₁, Disk.freed]
  have hused : Bitmap.isSet (fs.device.disk.block (fs.device.disk.inode parent).slotsBlock)
      (Directory.usedBit k) = true := by
    rw [← Disk.encode_slots, Directory.isSet_usedBit]
    exact (Directory.find_eq_some_iff.mp hfind).1.1
  refine ⟨parent, k, fs₂, htransact, Volume.reach_of_locate htext hlocate, hparent, hfind, hinode,
    hblocks, hvolume₂.trans hvolume₁, hused, fun block index => ?_⟩
  rw [hdisk₂]
  exact Disk.isSet_freed_ne_iff hused block index

/-! ### Giving blocks back -/

variable {fs' : FileSystem} {blocks : List UInt32}

/-- Blocks are given back: all of them have bits in the bitmap, which are clear now while all others
are as they were, the bitmap is on the disk and nothing else there has changed, and the blocks are
counted as free. -/
structure Releases (fs fs' : FileSystem) (blocks : List UInt32) : Prop where
  inside : ∀ block ∈ blocks, block < fs.volume.bitmap.blocks
  cleared : ∀ index, Bitmap.isSet fs'.volume.bitmap.map index =
    if index ∈ blocks.map UInt32.toNat then false else Bitmap.isSet fs.volume.bitmap.map index
  saved : fs'.device.disk.block bitmapId = fs'.volume.bitmap.map
  others : ∀ block, block ≠ bitmapId → fs'.device.disk.block block = fs.device.disk.block block
  counted : fs'.volume.usage.free.toNat = fs.volume.usage.free.toNat + blocks.length

theorem releases_of_commit (hfits : fs.volume.bitmap.Fits) (hne : blocks ≠ [])
    (h : commit (Effect.deallocate blocks) fs = .ok () fs') : fs.Releases fs' blocks := by
  obtain ⟨hallowed, hcontent⟩ := of_commit hfits h
  have hfree := Content.free_after hallowed
  rw [← hcontent, Effect.balance_deallocate] at hfree
  have hlist : Effect.deallocate blocks =
      [.mark blocks false, .saveBitmap, .credit blocks.length] :=
    if_neg (mt List.isEmpty_iff.mp hne)
  have hinside : ∀ block ∈ blocks, block < fs.volume.bitmap.blocks := by
    rw [hlist] at hallowed
    exact hallowed.1
  have hmarked : fs'.volume.bitmap = fs.volume.bitmap.marked blocks false := by
    rw [hlist] at hcontent
    exact (congrArg (·.volume.bitmap) hcontent).trans (Effect.bitmap_credit _ _)
  refine ⟨hinside, fun index => ?_, ?_, fun block hblock => ?_, by exact_mod_cast hfree⟩
  · rw [hmarked]
    exact (Bitmap.markEach_spec hfits hinside false).2.2 index
  · -- The counter is raised after the bitmap was written, and is not on the disk.
    rw [hlist] at hcontent
    rw [hmarked]
    have huntouched : (Effect.credit blocks.length).target ≠ some bitmapId := by
      simp [Effect.target]
    refine (congrArg (·.disk.block bitmapId) hcontent).trans ?_
    refine (Effect.block_change huntouched _).trans ?_
    exact (Disk.block_set _ _ _ _).trans (if_pos rfl)
  · refine (congrArg (·.disk.block block) hcontent).trans (Content.block_after ?_)
    intro effect heffect htarget
    exact hblock (Effect.bookkeeping_deallocate heffect block htarget)

theorem device_of_transact {α : Type} {plan : Volume → Query (Update α)} {a : α}
    (hfits : fs.volume.bitmap.Fits) (h : transact plan fs = .ok a fs') :
    fs'.device.faults = fs.device.faults ∧ fs'.device.disk.size = fs.device.disk.size := by
  have hending := transact_ending plan hfits
  rw [h] at hending
  cases hending with
  | done _ hfaults hcontent =>
    exact ⟨hfaults, (congrArg (·.disk.size) hcontent).trans (Content.size_after _ _)⟩

theorem exists_deallocated (hfits : fs.volume.bitmap.Fits)
    (hfaults : fs.device.faults = Faults.none)
    (hinside : ∀ block ∈ blocks, block < fs.volume.bitmap.blocks)
    (hdevice : bitmapId.toNat < fs.device.disk.size)
    (hroom : fs.volume.usage.free.toNat + blocks.length < UInt32.size) :
    ∃ fs', commit (Effect.deallocate blocks) fs = .ok () fs' := by
  refine commit_of_allowed _ hfits (fun effect _ => hfaults ▸ effect.served_none) ?_
  rw [Effect.deallocate]
  split
  · trivial
  · exact ⟨hinside, hdevice, ⟨_, if_neg (Nat.not_le.mpr hroom)⟩, trivial⟩

theorem releases_of_removes (h : request.Removes text condemn)
    (hfaults : fs.device.faults = Faults.none) (hfits : fs.volume.bitmap.Fits) {path : Path}
    {name : Name} (htext : Path.ofString text = .ok (path ++ [name])) {id : UInt32}
    {fs₂ : FileSystem} (hask : ask condemn fs = .ok (id, blocks) fs₁)
    (hdetach : transact (fun v => v.detach text) fs₁ = .ok id fs₂)
    (hcommit : commit (Effect.deallocate blocks) fs₂ = .ok () fs') : fs₂.Releases fs' blocks := by
  obtain ⟨parent, k, fs₃, hdetach₃, hfrees⟩ := exists_frees h hfaults htext hask
  rw [hdetach] at hdetach₃
  cases hdetach₃
  have hid : id ∈ blocks := by
    rw [hfrees.blocks]
    exact Disk.mem_released.mpr (.inl rfl)
  exact releases_of_commit (hfrees.volume ▸ hfits) (List.ne_nil_of_mem hid) hcommit

end FileSystem

/-! ### A root that is an entry of itself -/

/-- The slots of a root that has itself as an entry, `d`, and two files of one name, `f`. -/
def Directory.looped : Directory := Vector.ofFn fun k =>
  if k.val = 0 then Slot.entry rootId [100]
  else if k.val = 1 then Slot.entry 4 [102]
  else if k.val = 2 then Slot.entry 5 [102]
  else Slot.blank

def Inode.vacant : Inode := Inode.fresh .regular 0o644 ⟨0, 0⟩ 0 none

def Disk.looped : Disk :=
  (((Disk.blank 16).laidOut 16 0).set Volume.rootSlotsId Directory.looped.encode).set 4
    Inode.vacant.encode

namespace Directory

theorem get_looped (k : Fin slotCount) : looped.get k =
    if k.val = 0 then Slot.entry rootId [100]
    else if k.val = 1 then Slot.entry 4 [102]
    else if k.val = 2 then Slot.entry 5 [102]
    else Slot.blank := Vector.getElem_ofFn k.isLt

theorem find_looped_directory : looped.find [100] = some 0 := by
  refine find_eq_some_iff.mpr ⟨?_, fun j hj => absurd hj (Fin.not_lt_zero j)⟩
  rw [get_looped]
  exact ⟨rfl, by decide⟩

theorem find_looped_file : looped.find [102] = some 1 := by
  refine find_eq_some_iff.mpr ⟨?_, fun j hj => ?_⟩
  · rw [get_looped]
    exact ⟨rfl, by decide⟩
  · obtain rfl : j = 0 := Fin.ext (Nat.lt_one_iff.mp hj)
    rw [get_looped]
    decide

end Directory

namespace Disk

theorem block_looped (block : UInt32) : looped.block block =
    if 4 = block then Inode.vacant.encode
    else if Volume.rootSlotsId = block then Directory.looped.encode
    else ((Disk.blank 16).laidOut 16 0).block block := by
  rw [looped, block_set, block_set]

theorem inode_root_looped : looped.inode rootId = Volume.emptyRoot 0 := by
  rw [inode, block_looped, if_neg (by decide), if_neg (by decide)]
  exact laidOut_root

theorem inode_file_looped : looped.inode 4 = Inode.vacant := by
  rw [inode, block_looped, if_pos rfl, Inode.decode_encode]

theorem released_file_looped : looped.released 4 = [4] := by
  have hfile : (looped.inode 4).isDirectory = false := by
    rw [inode_file_looped]
    decide
  have hnone : Inode.vacant.ownBlocks = [] := by decide
  rw [released_file hfile, inode_file_looped, hnone]
  rfl

theorem slots_root_looped : looped.slots rootId = Directory.looped := by
  rw [slots, inode_root_looped, (emptyRoot_spec 0).2.2, block_looped, if_neg (by decide),
    if_pos rfl]
  refine Directory.decode_encode fun k => ?_
  rw [Directory.get_looped]
  split_ifs <;> decide

end Disk

private theorem ofString_looped :
    Path.ofString "/d/d/f" = .ok ([[100], [100]] ++ [[102]]) := rfl

section

variable {v : Volume} (hsuper : v.superblock = Superblock.ofSize 16)

include hsuper

private theorem walk_looped {name : Name} {k : Fin slotCount}
    (hfind : Directory.looped.find name = some k) (rest : Path) :
    (v.superblock.walk rootId (name :: rest)).answer Disk.looped =
      (v.superblock.walk (Directory.looped.get k).inode rest).answer Disk.looped := by
  have hslots : (Disk.looped.inode rootId).slots.answer Disk.looped =
      .ok (Disk.looped.slots rootId) := by
    rw [Disk.slots_eq_ok, Disk.inode_root_looped]
    exact ⟨⟨(Disk.emptyRoot_spec 0).2.1, (Disk.emptyRoot_spec 0).2.2 ▸ by decide⟩, rfl⟩
  have hload : (v.superblock.loadInode rootId).answer Disk.looped =
      .ok (Disk.looped.inode rootId) :=
    Superblock.loadInode_of_lt hsuper (by decide) (by decide) (by decide)
  rw [Superblock.walk_answer_cons hload hslots, Disk.slots_root_looped, hfind]

private theorem walk_looped_directory (rest : Path) :
    (v.superblock.walk rootId ([100] :: rest)).answer Disk.looped =
      (v.superblock.walk rootId rest).answer Disk.looped := by
  rw [walk_looped hsuper Directory.find_looped_directory, Directory.get_looped]
  rfl

private theorem walk_looped_file :
    (v.superblock.walk rootId [[102]]).answer Disk.looped = .ok 4 := by
  rw [walk_looped hsuper Directory.find_looped_file, Directory.get_looped]
  rfl

private theorem condemnFile_looped :
    (v.condemnFile "/d/d/f").answer Disk.looped = .ok (4, [4]) := by
  have hwalk : (v.superblock.walk rootId [[100], [100], [102]]).answer Disk.looped = .ok 4 := by
    rw [walk_looped_directory hsuper, walk_looped_directory hsuper, walk_looped_file hsuper]
  refine Volume.condemnFile_eq_ok.mpr ⟨?_, ?_, ?_, Disk.released_file_looped.symm⟩
  · exact Volume.locate_of_walk ofString_looped hwalk
      (Superblock.loadInode_of_lt hsuper (by decide) (by decide) (by decide))
  · rw [Disk.inode_file_looped]
    decide
  · rw [Disk.inode_file_looped]
    decide

end

private theorem exists_mounted_looped : ∃ volume device,
    Device.mount (Device.ofDisk Disk.looped) = .ok volume device ∧
      device.faults = Faults.none ∧ device.disk = Disk.looped ∧
      volume.superblock = Superblock.ofSize 16 ∧ volume.bitmap.blocks = 16 ∧
      volume.usage.Counts volume.bitmap := by
  have hstored : Superblock.decode (Disk.looped.block superblockId) = Superblock.ofSize 16 := by
    rw [Disk.block_looped, if_neg (by decide), if_neg (by decide)]
    exact Disk.laidOut_superblock
  have hdirectory : (Disk.looped.inode rootId).isDirectory = true := by
    rw [Disk.inode_root_looped]
    exact (Disk.emptyRoot_spec 0).2.1
  exact Device.mount_ofDisk (by decide) (by decide) (by decide) hstored hdirectory

namespace FileSystem

private theorem commit_looped {fs : FileSystem} (hfaults : fs.device.faults = Faults.none)
    (hsize : fs.device.disk.size = 16) (hblocks : fs.volume.bitmap.blocks = 16)
    (hcounts : fs.volume.usage.Counts fs.volume.bitmap) :
    ∃ fs', commit (Effect.deallocate [4]) fs = .ok () fs' := by
  have hfits : fs.volume.bitmap.Fits := by
    rw [Bitmap.Fits, hblocks]
    decide
  refine exists_deallocated hfits hfaults ?_ ?_ ?_
  · intro block hblock
    obtain rfl := List.mem_singleton.mp hblock
    rw [hblocks]
    decide
  · rw [hsize]
    decide
  · have hclear := fs.volume.bitmap.length_clear_le reservedBlocks.toNat
    have hlimit : (16 : UInt32).toNat + 1 < UInt32.size := by decide
    rw [hblocks, ← hcounts.free] at hclear
    show fs.volume.usage.free.toNat + 1 < UInt32.size
    omega

/-! ### What is resolved is freed -/

/-- Resolving a path at once and in two stages is the same, so a removal frees the slot that it
resolved. A call that removes an entry asks a question, then frees a slot, then gives blocks back.
Once the question is answered the slot is freed without fail, and what this answers is the number
whose blocks are given back. When these are given back, their bits and no others are cleared, in
memory and on the disk, and all of them are counted as free. -/
structure ResolvesAlike (fs : FileSystem) : Prop where
  resolved : ∀ (path : Path) (name : Name),
    fs.volume.superblock.reach (path ++ [name]) 0 = do
      let parent ← fs.volume.superblock.reach (path ++ [name]) 1
      let inode ← fs.volume.superblock.loadInode parent
      if inode.isDirectory then
        let slot ← inode.child name
        return slot.inode
      else Query.refuse .notADirectory
  staged : ∀ {text : String} {request : Request} {condemn : Volume → Query (UInt32 × List UInt32)},
    request.Removes text condemn → ∀ now, perform now request fs = (do
      let (_, blocks) ← ask condemn
      let _ ← transact fun v => v.detach text
      commit (Effect.deallocate blocks)
      return Response.done : EStateM Failure FileSystem Response) fs
  named : ∀ {text : String} {request : Request} {condemn : Volume → Query (UInt32 × List UInt32)},
    request.Removes text condemn → fs.device.faults = Faults.none →
      (fs.device.disk.inode rootId).isDirectory = true →
      ∀ {condemned : UInt32 × List UInt32} {fs₁ : FileSystem}, ask condemn fs = .ok condemned fs₁ →
        ∃ path name, Path.ofString text = .ok (path ++ [name])
  freed : ∀ {text : String} {request : Request} {condemn : Volume → Query (UInt32 × List UInt32)},
    request.Removes text condemn → fs.device.faults = Faults.none →
      ∀ {path : Path} {name : Name}, Path.ofString text = .ok (path ++ [name]) →
      ∀ {id : UInt32} {blocks : List UInt32} {fs₁ : FileSystem},
        ask condemn fs = .ok (id, blocks) fs₁ →
          ∃ parent k fs₂, transact (fun v => v.detach text) fs₁ = .ok id fs₂ ∧
            fs.Frees fs₂ path name id blocks parent k
  released : ∀ {text : String} {request : Request}
      {condemn : Volume → Query (UInt32 × List UInt32)},
    request.Removes text condemn → fs.device.faults = Faults.none → fs.volume.bitmap.Fits →
      ∀ {path : Path} {name : Name}, Path.ofString text = .ok (path ++ [name]) →
      ∀ {id : UInt32} {blocks : List UInt32} {fs₁ fs₂ fs₃ : FileSystem},
        ask condemn fs = .ok (id, blocks) fs₁ →
        transact (fun v => v.detach text) fs₁ = .ok id fs₂ →
        commit (Effect.deallocate blocks) fs₂ = .ok () fs₃ → fs₂.Releases fs₃ blocks

/-- Whatever a file system holds, what a removal resolves is what it frees. -/
theorem resolves_alike (fs : FileSystem) : fs.ResolvesAlike where
  resolved := fs.volume.superblock.reach_concat
  staged h now := congrFun (perform_of_removes h now) fs
  named h hfaults hroot _ _ hask := by
    obtain ⟨hcondemn, -⟩ := of_ask_of_faultless hfaults hask
    exact h.exists_name hroot hcondemn
  freed h hfaults _ _ htext _ _ _ hask := exists_frees h hfaults htext hask
  released h hfaults hfits _ _ htext _ _ _ _ _ hask hdetach hcommit :=
    releases_of_removes h hfaults hfits htext hask hdetach hcommit

/-- The first of two files of one name is removed, on a path that comes back to the root twice, and
the slot that is freed is its own, as is the block that is given back. -/
theorem resolves_alike_looped : ∃ volume device fs₁ fs₂ fs₃,
    Device.mount (Device.ofDisk Disk.looped) = .ok volume device ∧
      ask (fun v => v.condemnFile "/d/d/f") ⟨device, volume⟩ = .ok (4, [4]) fs₁ ∧
      transact (fun v => v.detach "/d/d/f") fs₁ = .ok 4 fs₂ ∧
      (FileSystem.mk device volume).Frees fs₂ [[100], [100]] [102] 4 [4] rootId 1 ∧
      commit (Effect.deallocate [4]) fs₂ = .ok () fs₃ ∧ fs₂.Releases fs₃ [4] := by
  obtain ⟨volume, device, hmount, hfaults, hdisk, hsuper, hblocks, hcounts⟩ :=
    exists_mounted_looped
  have hnone : (FileSystem.mk device volume).device.faults = Faults.none := hfaults
  obtain ⟨fs₁, -, -, hask⟩ := ask_of_faultless (fun v => v.condemnFile "/d/d/f") hnone
  rw [hdisk, condemnFile_looped hsuper] at hask
  obtain ⟨parent, k, fs₂, hdetach, hfrees⟩ :=
    (resolves_alike ⟨device, volume⟩).freed .file hnone ofString_looped hask
  obtain rfl : rootId = parent := by
    have hdirectory := hfrees.directory
    rw [hdisk] at hdirectory
    have hparent : (volume.superblock.walk rootId [[100], [100]]).answer Disk.looped =
        .ok rootId := by
      rw [walk_looped_directory hsuper, walk_looped_directory hsuper]
      rfl
    exact Except.ok.inj (hparent.symm.trans hdirectory)
  obtain rfl : 1 = k := by
    have hslot := hfrees.slot
    rw [hdisk, Disk.slots_root_looped] at hslot
    exact Option.some.inj (Directory.find_looped_file.symm.trans hslot)
  have hfits : (FileSystem.mk device volume).volume.bitmap.Fits := by
    show volume.bitmap.blocks.toNat ≤ maxDiskBlocks
    rw [hblocks]
    decide
  obtain ⟨-, hfaults₁, hcontent₁⟩ := of_ask_of_faultless hnone hask
  have hfits₁ : fs₁.volume.bitmap.Fits := by
    rw [show fs₁.volume = volume from congrArg Content.volume hcontent₁]
    exact hfits
  obtain ⟨hfaults₂, hsize₂⟩ := device_of_transact hfits₁ hdetach
  have hvolume₂ : fs₂.volume = volume := hfrees.volume
  have hdisk₁ : fs₁.device.disk = Disk.looped := (congrArg Content.disk hcontent₁).trans hdisk
  obtain ⟨fs₃, hcommit⟩ := commit_looped (hfaults₂.trans hfaults₁) (hsize₂.trans (hdisk₁ ▸ rfl))
    (hvolume₂ ▸ hblocks) (hvolume₂ ▸ hcounts)
  exact ⟨volume, device, fs₁, fs₂, fs₃, hmount, hask, hdetach, hfrees, hcommit,
    (resolves_alike ⟨device, volume⟩).released .file hnone hfits ofString_looped hask hdetach
      hcommit⟩

end FileSystem

end BlockFS
