import BlockFS.Proofs.Operation.Run
import BlockFS.Proofs.Space.Usage
import BlockFS.Proofs.Volume.Answers

/-!
Mounting and laying out. A disk with a consistent tree can always be mounted, and mounting it reads
back the bitmap that is on the disk. Laying out an empty file system writes its first four blocks.
-/

set_option autoImplicit false
set_option relaxedAutoImplicit false

namespace BlockFS

open Query (answer_bind_of_ok answer_bind_of_error answer_lift answer_lift_refusal)

theorem Superblock.checkFit_of_le {diskSize : UInt32} {deviceBlocks : Nat}
    (hlow : firstFreeId ≤ diskSize) (hhigh : diskSize.toNat ≤ maxDiskBlocks)
    (hdevice : diskSize.toNat ≤ deviceBlocks) : checkFit diskSize deviceBlocks = .ok () := by
  rw [checkFit, if_neg]
  rintro (hlt | hlt | hlt)
  · exact absurd (UInt32.lt_of_lt_of_le hlt hlow) (UInt32.lt_irrefl diskSize)
  · exact absurd hhigh (Nat.not_le.mpr hlt)
  · exact absurd hdevice (Nat.not_le.mpr hlt)

/-- A disk that a superblock fits, and whose root is a directory, is mounted with the bitmap that it
holds. -/
theorem Volume.load_answer {disk : Disk} {diskSize : UInt32} (hlow : firstFreeId ≤ diskSize)
    (hhigh : diskSize.toNat ≤ maxDiskBlocks) (hdevice : diskSize.toNat ≤ disk.size)
    (hstored : Superblock.decode (disk.block superblockId) = Superblock.ofSize diskSize)
    (hroot : (disk.inode rootId).isDirectory = true) :
    ∃ usage, (Volume.load disk.size).answer disk =
        .ok ⟨Superblock.ofSize diskSize, ⟨disk.block bitmapId, diskSize⟩, usage⟩ ∧
      usage.Counts ⟨disk.block bitmapId, diskSize⟩ := by
  obtain ⟨usage, husage, hcounts⟩ := Usage.ofBitmap_counts
    (b := ⟨disk.block bitmapId, diskSize⟩) hhigh
  have hmagic : (Superblock.ofSize diskSize).magic = magicNumber := rfl
  have hsize : (Superblock.ofSize diskSize).diskSize = diskSize := rfl
  have hinside : ∀ id < firstFreeId, id < diskSize ∧ id.toNat < disk.size := fun id hid =>
    have hlt := UInt32.lt_of_lt_of_le hid hlow
    ⟨hlt, Nat.lt_of_lt_of_le (UInt32.lt_iff_toNat_lt.mp hlt) hdevice⟩
  have hblock : ∀ id < firstFreeId, (Query.block id).answer disk = .ok (disk.block id) :=
    fun id hid => Query.block_eq_ok.mpr ⟨(hinside id hid).2, rfl⟩
  have hsuper : (Superblock.load disk.size).answer disk = .ok (Superblock.ofSize diskSize) := by
    rw [Superblock.load, answer_bind_of_ok (hblock superblockId (by decide))]
    simp only [hstored]
    rw [if_neg (not_not_intro hmagic), hsize, Superblock.checkFit_of_le hlow hhigh hdevice]
    rfl
  have hbitmap : (Bitmap.load diskSize).answer disk = .ok ⟨disk.block bitmapId, diskSize⟩ := by
    rw [Bitmap.load, answer_bind_of_ok (hblock bitmapId (by decide))]
    rfl
  have hinode : ((Superblock.ofSize diskSize).loadInode rootId).answer disk =
      .ok (disk.inode rootId) :=
    Superblock.loadInode_of_lt rfl hdevice (UInt32.le_refl rootId) (hinside rootId (by decide)).1
  refine ⟨usage, ?_, hcounts⟩
  rw [Volume.load, answer_bind_of_ok hsuper, hsize, answer_bind_of_ok hbitmap, husage,
    answer_bind_of_ok (a := usage) rfl, answer_bind_of_ok hinode, if_pos hroot]
  rfl

theorem Content.Mounted.load_answer {c : Content} {diskSize : UInt32} (h : c.Mounted diskSize) :
    ∃ usage, (Volume.load c.disk.size).answer c.disk =
        .ok ⟨Superblock.ofSize diskSize, ⟨c.disk.block bitmapId, diskSize⟩, usage⟩ ∧
      usage.Counts ⟨c.disk.block bitmapId, diskSize⟩ :=
  Volume.load_answer h.low h.high h.device h.stored h.consistent.root_directory

theorem Device.mount_of_load {d : Device} (hfaults : d.faults = Faults.none) {volume : Volume}
    (hload : (Volume.load d.disk.size).answer d.disk = .ok volume) :
    ∃ d', mount d = .ok volume d' ∧ d'.faults = Faults.none ∧ d'.disk = d.disk := by
  obtain ⟨accesses, hrun⟩ := (Volume.load d.disk.size).run_eq_answer d
    (by simp [hfaults, Faults.none])
  rw [hload] at hrun
  exact ⟨{ d with accesses := accesses }, hrun, hfaults, rfl⟩

theorem Device.mount_ofDisk {disk : Disk} {diskSize : UInt32} (hlow : firstFreeId ≤ diskSize)
    (hhigh : diskSize.toNat ≤ maxDiskBlocks) (hdevice : diskSize.toNat ≤ disk.size)
    (hstored : Superblock.decode (disk.block superblockId) = Superblock.ofSize diskSize)
    (hroot : (disk.inode rootId).isDirectory = true) :
    ∃ volume device, mount (ofDisk disk) = .ok volume device ∧ device.faults = Faults.none ∧
      device.disk = disk ∧ volume.superblock = Superblock.ofSize diskSize ∧
      volume.bitmap.blocks = diskSize ∧ volume.usage.Counts volume.bitmap := by
  obtain ⟨usage, hload, hcounts⟩ := Volume.load_answer hlow hhigh hdevice hstored hroot
  obtain ⟨device, hmount, hfaults, hdisk⟩ := mount_of_load (d := ofDisk disk) rfl hload
  exact ⟨_, device, hmount, hfaults, hdisk, rfl, rfl, hcounts⟩

namespace FileSystem

/-- A remount that succeeds holds in memory what it loaded; one that fails changes nothing. -/
theorem after_remount (fs : FileSystem) (now : UInt32) :
    (fs.after now .remount).device.faults = fs.device.faults ∧
      ((fs.after now .remount).content = fs.content ∨
        ∃ volume, (Volume.load fs.device.disk.size).answer fs.device.disk = .ok volume ∧
          (fs.after now .remount).content = ⟨fs.device.disk, volume⟩) := by
  obtain ⟨accesses, hrun⟩ := (Volume.load fs.device.disk.size).run_eq_answer_or_io fs.device
  cases hanswer : (Volume.load fs.device.disk.size).answer fs.device.disk with
  | error failure =>
    rw [hanswer] at hrun
    obtain ⟨other, hmount⟩ : ∃ other, Device.mount fs.device =
        .error other { fs.device with accesses := accesses } :=
      hrun.elim (fun h => ⟨failure, h⟩) fun h => ⟨.refused .io, h⟩
    simp only [after, perform, remount, onDevice, bind, EStateM.bind, hmount, ending]
    exact ⟨trivial, .inl rfl⟩
  | ok volume =>
    rw [hanswer] at hrun
    rcases hrun with hrun | hrun
    · have hmount : Device.mount fs.device =
          .ok volume { fs.device with accesses := accesses } := hrun
      have hafter : fs.after now .remount =
          ⟨{ fs.device with accesses := accesses }, volume⟩ := by
        simp only [after, perform, remount, onDevice, bind, EStateM.bind, hmount]
        rfl
      rw [hafter]
      exact ⟨rfl, .inr ⟨volume, rfl, rfl⟩⟩
    · have hmount : Device.mount fs.device =
          .error (.refused .io) { fs.device with accesses := accesses } := hrun
      simp only [after, perform, remount, onDevice, bind, EStateM.bind, hmount, ending]
      exact ⟨trivial, .inl rfl⟩

end FileSystem

end BlockFS
