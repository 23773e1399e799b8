import BlockFS.Proofs.Operation.Run
import BlockFS.Proofs.Volume.Transitions
import BlockFS.Proofs.Volume.DataPlans

/-!
What the calls that give blocks back decide on, whatever the disk holds. They write one block that
they have read before, which takes a file out of its directory or pointers out of its inode, and
then give back blocks that the inode points at. The numbers of these blocks were not looked at yet.
-/

set_option autoImplicit false
set_option relaxedAutoImplicit false

namespace BlockFS

open Query (answer_bind_eq_ok answer_lift)

/-- The calls that give back blocks of the file at a path. -/
inductive Request.GivesBack (text : String) : Request → Prop
  | file : GivesBack text (.deleteFile text)
  | directory : GivesBack text (.deleteDirectory text)
  | tail (length : Int) : GivesBack text (.truncate text length)

namespace Volume

variable {v : Volume} {disk : Disk} {id : UInt32} {text : String}

/-- The write with which a call takes blocks of an inode out of use, and the blocks that it gives
back afterwards. -/
inductive Gives (v : Volume) (disk : Disk) (id : UInt32) :
    Request → UInt32 → Block → List UInt32 → Prop
  | file {text : String} {parent : UInt32} {k : Fin slotCount} (hends : v.EndsIn disk text parent k)
      (hfile : (disk.inode id).isDirectory = false) :
      Gives v disk id (.deleteFile text) (disk.inode parent).slotsBlock
        ((disk.slots parent).put k ((disk.slots parent).get k).release).encode (disk.released id)
  | directory {text : String} {parent : UInt32} {k : Fin slotCount}
      (hends : v.EndsIn disk text parent k) (hdirectory : (disk.inode id).isDirectory = true) :
      Gives v disk id (.deleteDirectory text) (disk.inode parent).slotsBlock
        ((disk.slots parent).put k ((disk.slots parent).get k).release).encode (disk.released id)
  | tail {text : String} {length : Int} (hregular : (disk.inode id).isRegular = true)
      (hlength : length.toNat ≤ (disk.inode id).length) (hinside : id.toNat < disk.size) :
      Gives v disk id (.truncate text length) id ((disk.inode id).cut length.toNat).encode
        ((disk.inode id).dropped length.toNat)

namespace Gives

variable {request : Request} {block : UInt32} {contents : Block} {blocks : List UInt32}
  (h : v.Gives disk id request block contents blocks)

include h

theorem inside : block.toNat < disk.size := by
  cases h with
  | file hends _ => exact hends.inside
  | directory hends _ => exact hends.inside
  | tail _ _ hinside => exact hinside

theorem owned {given : UInt32} (hgiven : given ∈ blocks) : given = id ∨
    ∃ k : Fin pointerCount, k.val < (disk.inode id).held ∧
      (disk.inode id).pointers.get k = given := by
  cases h with
  | file _ _ => exact Disk.mem_released.mp hgiven
  | directory _ _ => exact Disk.mem_released.mp hgiven
  | tail hregular _ _ =>
    obtain ⟨k, -, hk, heq⟩ := Inode.mem_dropped.mp hgiven
    exact .inr ⟨k, by rwa [Inode.held_of_isRegular hregular], heq⟩

end Gives

theorem of_deleteFile {update : Update Unit}
    (hplan : (v.deleteFile text).answer disk = .ok update) :
    ∃ id block contents blocks, (v.locate text 0).answer disk = .ok (id, disk.inode id) ∧
      v.Gives disk id (.deleteFile text) block contents blocks ∧
      update.effects = .store block contents :: Effect.deallocate blocks := by
  rw [deleteFile_eq] at hplan
  obtain ⟨⟨id, blocks⟩, hcondemn, hplan⟩ := answer_bind_eq_ok.mp hplan
  obtain ⟨hlocate, hfile, -, rfl⟩ := condemnFile_eq_ok.mp hcondemn
  obtain ⟨parent, k, hends, rfl⟩ := discard_eq_ok.mp hplan
  exact ⟨id, _, _, _, hlocate, .file hends hfile, rfl⟩

theorem of_deleteDirectory {update : Update Unit}
    (hplan : (v.deleteDirectory text).answer disk = .ok update) :
    ∃ id block contents blocks, (v.locate text 0).answer disk = .ok (id, disk.inode id) ∧
      v.Gives disk id (.deleteDirectory text) block contents blocks ∧
      update.effects = .store block contents :: Effect.deallocate blocks := by
  rw [deleteDirectory_eq] at hplan
  obtain ⟨⟨id, blocks⟩, hcondemn, hplan⟩ := answer_bind_eq_ok.mp hplan
  obtain ⟨hlocate, -, hslots, -, rfl⟩ := condemnDirectory_eq_ok.mp hcondemn
  obtain ⟨⟨hdirectory, -⟩, -⟩ := Disk.slots_eq_ok.mp hslots
  obtain ⟨parent, k, hends, rfl⟩ := discard_eq_ok.mp hplan
  exact ⟨id, _, _, _, hlocate, .directory hends hdirectory, rfl⟩

theorem of_truncate {length : Int} {update : Update Unit}
    (hplan : (v.truncate text length).answer disk = .ok update) :
    ∃ id block contents blocks, (v.locate text 0).answer disk = .ok (id, disk.inode id) ∧
      v.Gives disk id (.truncate text length) block contents blocks ∧
      update.effects = .store block contents :: Effect.deallocate blocks := by
  rw [truncate] at hplan
  by_cases hlength : length < 0
  · rw [if_pos hlength] at hplan
    cases hplan
  · rw [if_neg hlength] at hplan
    obtain ⟨located, hlocate, hplan⟩ := answer_bind_eq_ok.mp hplan
    obtain ⟨id, rfl, -, -, hinside⟩ := of_locate hlocate
    rw [answer_lift] at hplan
    obtain ⟨hregular, hle, rfl⟩ := of_shrinkFile hplan
    exact ⟨id, _, _, _, hlocate, .tail hregular hle hinside, rfl⟩

/-- Whatever the disk holds, a call that gives blocks back decides on one write before it does. -/
theorem of_givesBack {request : Request} {now : UInt32} {effects : List Effect}
    (hrequest : request.GivesBack text)
    (heffects : (request.effects v now).answer disk = .ok effects) :
    ∃ id block contents blocks, (v.locate text 0).answer disk = .ok (id, disk.inode id) ∧
      v.Gives disk id request block contents blocks ∧
      effects = .store block contents :: Effect.deallocate blocks := by
  cases hrequest with
  | file =>
    obtain ⟨update, hplan, rfl⟩ := Query.answer_map_eq_ok.mp heffects
    exact of_deleteFile hplan
  | directory =>
    obtain ⟨update, hplan, rfl⟩ := Query.answer_map_eq_ok.mp heffects
    exact of_deleteDirectory hplan
  | tail length =>
    obtain ⟨update, hplan, rfl⟩ := Query.answer_map_eq_ok.mp heffects
    exact of_truncate hplan

end Volume

end BlockFS
