import BlockFS.Proofs.Operation.Run
import BlockFS.Proofs.Space.Usage
import BlockFS.Proofs.Volume.DataPlans
import BlockFS.Proofs.Volume.Listing

/-!
Why plans fail, and what those that do not fail decide on. Nothing is assumed of the disk here but
what `Questions` says: which failures the single questions of a volume may have, and what is known
of the inodes that they find. Every plan then fails in no other way, and decides on effects that
keep to their blocks and that account for the blocks they take and give back. The two uses are an
intact file system, where nothing but ordinary refusals is left, and an arbitrary disk, where
anything may be refused.
-/

set_option autoImplicit false
set_option relaxedAutoImplicit false

namespace BlockFS

namespace Error

/-- A refusal that answers what was asked for. The two others speak of a broken device or a broken
file system. -/
def Ordinary (reason : Error) : Prop := reason ≠ io ∧ reason ≠ invalidSuperblock

instance (reason : Error) : Decidable reason.Ordinary := instDecidableAnd

end Error

/-- A computation yields a value with one property, or fails with another. -/
def Ensures {α : Type} (fails : Failure → Prop) (holds : α → Prop) : Except Failure α → Prop
  | .ok a => holds a
  | .error failure => fails failure

namespace Ensures

variable {α β : Type} {fails : Failure → Prop} {holds : α → Prop} {holds' : β → Prop}
  {x : Except Failure α} {disk : Disk} {q : Query α}

theorem bind {f : α → Except Failure β} (h : Ensures fails holds x)
    (hf : ∀ a, holds a → Ensures fails holds' (f a)) : Ensures fails holds' (x >>= f) := by
  cases x with
  | ok a => exact hf a h
  | error failure => exact h

theorem ok_bind {a : α} {f : α → Except Failure β} (h : Ensures fails holds' (f a)) :
    Ensures fails holds' (Except.ok a >>= f) := h

theorem query_bind {f : α → Query β} (h : Ensures fails holds (q.answer disk))
    (hf : ∀ a, holds a → Ensures fails holds' ((f a).answer disk)) :
    Ensures fails holds' ((q >>= f).answer disk) := by
  rw [Query.answer_bind]
  exact h.bind hf

theorem query_lift (h : Ensures fails holds x) :
    Ensures fails holds (Query.answer disk (liftM x)) := by
  rwa [Query.answer_lift]

theorem query_refusal {result : Except Error α}
    (h : Ensures fails holds (Failure.ofRefusal result)) :
    Ensures fails holds (Query.answer disk (liftM result)) := by
  rwa [Query.answer_lift_refusal]

theorem query_attempt (h : Ensures fails holds (q.answer disk)) :
    Ensures fails (Ensures fails holds) (q.attempt.answer disk) := by
  induction q with
  | done a => exact h
  | fail failure => exact h
  | read id next ih =>
    rw [Query.answer] at h
    rw [Query.attempt, Query.answer]
    split at h
    · rw [if_pos ‹_›]
      exact h
    · rw [if_neg ‹_›]
      exact ih _ h

theorem mono {holds' : α → Prop} (h : Ensures fails holds x) (himp : ∀ a, holds a → holds' a) :
    Ensures fails holds' x := by
  cases x with
  | ok a => exact himp a h
  | error failure => exact h

theorem map {f : α → β} (h : Ensures fails holds x) : Ensures fails (fun _ => True) (x.map f) := by
  cases x with
  | ok a => exact trivial
  | error failure => exact h

theorem of_ok {a : α} (h : Ensures fails holds x) (hok : x = .ok a) : holds a := by
  subst hok
  exact h

theorem of_error {failure : Failure} (h : Ensures fails holds x) (herror : x = .error failure) :
    fails failure := by
  subst herror
  exact h

end Ensures

/-! ### What effects account for -/

def Effect.Placed : Effect → Prop
  | .store _ _ => True
  | .overlay _ start bytes => start + bytes.length ≤ blockSize
  | _ => False

/-- Writes that keep to their blocks, and among them, all at once, free blocks that are taken or
blocks that are given back; of the latter nothing else is known. -/
inductive Bitmap.Accounts (b : Bitmap) : List Effect → Prop
  | writes {effects : List Effect} (hplaced : ∀ effect ∈ effects, effect.Placed) :
      b.Accounts effects
  | takes {first last : List Effect} {wanted : Nat} {blocks : List UInt32}
      (hfirst : ∀ effect ∈ first, effect.Placed) (hoffers : b.Offers wanted blocks)
      (hlast : ∀ effect ∈ last, effect.Placed) :
      b.Accounts (first ++ (Effect.allocate blocks ++ last))
  | gives {first : List Effect} {blocks : List UInt32}
      (hfirst : ∀ effect ∈ first, effect.Placed) :
      b.Accounts (first ++ Effect.deallocate blocks)

theorem Bitmap.Accounts.write {b : Bitmap} {effect : Effect} (hplaced : effect.Placed) :
    b.Accounts [effect] :=
  .writes fun other hother => by rwa [List.mem_singleton.mp hother]

theorem Bitmap.Accounts.give {b : Bitmap} {effect : Effect} (hplaced : effect.Placed)
    (blocks : List UInt32) : b.Accounts (effect :: Effect.deallocate blocks) :=
  .gives fun other hother => by rwa [List.mem_singleton.mp hother]

theorem Bitmap.Accounts.take {b : Bitmap} {wanted : Nat} {blocks : List UInt32} {last : List Effect}
    (hoffers : b.Offers wanted blocks) (hlast : ∀ effect ∈ last, effect.Placed) :
    b.Accounts (Effect.allocate blocks ++ last) := by
  have hnone : ∀ effect ∈ ([] : List Effect), effect.Placed := nofun
  exact .takes hnone hoffers hlast

namespace Volume

/-- What the single questions of a volume come to on a disk: they fail in the given way, and of each
inode that is found at a number something is known. Ordinary refusals are always among the
failures. -/
structure Questions (v : Volume) (disk : Disk) (fails : Failure → Prop)
    (known : UInt32 → Inode → Prop) : Prop where
  ordinary : ∀ {reason : Error}, reason.Ordinary → fails (.refused reason)
  fits : v.bitmap.Fits
  blocks : v.bitmap.blocks = v.superblock.diskSize
  reach : ∀ (path : Path) (depth : Nat),
    Ensures fails (fun id => Ensures fails (known id) ((v.superblock.loadInode id).answer disk))
      ((v.superblock.reach path depth).answer disk)
  slots : ∀ {id : UInt32} {inode : Inode}, known id inode →
    Ensures fails (fun slots : Directory => ∀ slot ∈ slots.entries,
      Ensures fails (fun _ => True) ((v.superblock.loadInode slot.inode).answer disk))
        (inode.slots.answer disk)
  length : ∀ {id : UInt32} {inode : Inode}, known id inode →
    Ensures fails (fun _ => True) (Failure.ofRefusal inode.boundedLength)
  range : ∀ {id : UInt32} {inode : Inode}, known id inode →
    Ensures fails (fun _ => True) (Failure.ofRefusal (v.superblock.checkRange id))

namespace Questions

variable {v : Volume} {disk : Disk} {fails : Failure → Prop} {known : UInt32 → Inode → Prop}
  {id : UInt32} {inode : Inode} (h : v.Questions disk fails known)

theorem storeInode {other : Inode}
    (hrange : Ensures fails (fun _ => True) (Failure.ofRefusal (v.superblock.checkRange id))) :
    Ensures fails (fun effect => effect = .store id other.encode)
      (Failure.ofRefusal (Effect.storeInode v.superblock id other)) := by
  rw [Effect.storeInode]
  cases heq : v.superblock.checkRange id with
  | ok _ => rfl
  | error reason =>
    rw [heq] at hrange
    exact hrange

theorem describe {slots : List Slot} (hslots : ∀ slot ∈ slots,
      Ensures fails (fun _ => True) ((v.superblock.loadInode slot.inode).answer disk)) :
    Ensures fails (fun _ => True) ((v.describe slots).answer disk) := by
  induction slots with
  | nil => exact trivial
  | cons slot rest ih =>
    refine (hslots slot List.mem_cons_self).query_bind fun inode _ => ?_
    refine (ih fun other hother => hslots other (List.mem_cons_of_mem slot hother)).query_bind ?_
    exact fun _ _ => trivial

include h

theorem refuse {α : Type} {holds : α → Prop} {reason : Error} (hordinary : reason.Ordinary) :
    Ensures fails holds ((Query.refuse reason).answer disk) :=
  h.ordinary hordinary

theorem path (text : String) :
    Ensures fails (fun _ => True) (Failure.ofRefusal (Path.ofString text)) := by
  rw [Path.ofString]
  split
  · exact h.ordinary (by decide)
  · exact trivial

theorem locate (text : String) (depth : Nat) :
    Ensures fails (fun located : UInt32 × Inode => known located.1 located.2)
      ((v.locate text depth).answer disk) := by
  refine (h.path text).query_refusal.query_bind fun path _ => ?_
  refine (h.reach path depth).query_bind fun id hid => ?_
  exact hid.query_bind fun inode hknown => hknown

theorem boundedLength (hknown : known id inode) :
    Ensures fails (fun length => length = inode.length ∧ inode.length ≤ maxFileSize)
      (Failure.ofRefusal inode.boundedLength) := by
  have hlength := h.length hknown
  cases heq : inode.boundedLength with
  | ok length => exact Inode.of_boundedLength heq
  | error reason =>
    rw [heq] at hlength
    exact hlength

theorem firstFit {wanted : Nat} (hwanted : wanted < Bitmap.requestLimit) :
    Ensures fails (fun blocks => v.bitmap.Offers wanted blocks)
      (v.bitmap.firstFit reservedBlocks wanted) := by
  cases heq : v.bitmap.firstFit reservedBlocks wanted with
  | ok blocks => exact Bitmap.offers_of_firstFit h.fits heq
  | error failure =>
    rw [Bitmap.firstFit_eq h.fits reservedBlocks hwanted] at heq
    split at heq
    · cases heq
    · cases heq
      exact h.ordinary (by decide)

theorem range_of_offers {wanted : Nat} {blocks : List UInt32}
    (hoffers : v.bitmap.Offers wanted blocks) (hid : id ∈ blocks) :
    Ensures fails (fun _ => True) (Failure.ofRefusal (v.superblock.checkRange id)) := by
  obtain ⟨hlow, hhigh, -⟩ := Bitmap.mem_clear.mp (hoffers.clear id hid)
  rw [h.blocks] at hhigh
  rw [Superblock.checkRange, if_neg]
  · exact trivial
  · rintro (hlt | hge)
    · exact Nat.not_lt.mpr hlow (UInt32.lt_iff_toNat_lt.mp hlt)
    · exact Nat.not_lt.mpr (UInt32.le_iff_toNat_le.mp hge) hhigh

/-! ### Questions -/

theorem lookup (text : String) : Ensures fails (fun _ => True) ((v.lookup text).answer disk) :=
  (h.locate text 0).query_bind fun _ _ => trivial

theorem attributes (text : String) :
    Ensures fails (fun _ => True) ((v.attributes text).answer disk) :=
  (h.locate text 0).query_bind fun _ _ => trivial

theorem list (text : String) : Ensures fails (fun _ => True) ((v.list text).answer disk) := by
  refine (h.locate text 0).query_bind fun located hknown => ?_
  exact (h.slots hknown).query_bind fun slots hslots => describe hslots

/-! ### Plans for names and attributes -/

theorem create (now permissions : UInt32) (text : String) (type : FileType) (owner : Owner) :
    Ensures fails (fun update => v.bitmap.Accounts update.effects)
      ((v.create now text permissions type owner).answer disk) := by
  refine (h.path text).query_refusal.query_bind fun path _ => ?_
  cases path.getLast? with
  | none => exact h.refuse (by decide)
  | some name =>
    refine (h.reach path 1).query_bind fun parentId hparent => ?_
    refine hparent.query_bind fun parent hknown => ?_
    refine (h.slots hknown).query_bind fun slots _ => ?_
    dsimp only
    split
    · exact h.refuse (by decide)
    cases slots.firstUnused with
    | none => exact h.refuse (by decide)
    | some position =>
      have hcount : type.blockCount < Bitmap.requestLimit := by cases type <;> decide
      refine (h.firstFit hcount).query_lift.query_bind fun blocks hoffers => ?_
      obtain ⟨id, blank, rfl⟩ : ∃ id blank, blocks = id :: blank :=
        List.exists_cons_of_length_pos (by
          rw [hoffers.length]
          cases type <;> decide)
      refine (storeInode (h.range_of_offers hoffers
        List.mem_cons_self)).query_refusal.query_bind fun store hstore => ?_
      subst hstore
      have hplaced : ∀ first : List Effect, (∀ effect ∈ first, effect.Placed) →
          v.bitmap.Accounts (first ++ Effect.allocate (id :: blank)) := fun first hfirst => by
        rw [← List.append_nil (Effect.allocate (id :: blank))]
        exact .takes hfirst hoffers nofun
      cases type with
      | regular =>
        refine hplaced [_, _] fun effect heffect => ?_
        simp only [List.mem_cons, List.not_mem_nil, or_false] at heffect
        rcases heffect with rfl | rfl <;> trivial
      | directory =>
        obtain ⟨block, rfl⟩ : ∃ block, blank = [block] :=
          List.length_eq_one_iff.mp (Nat.succ.inj hoffers.length)
        refine hplaced [_, _, _] fun effect heffect => ?_
        simp only [List.mem_cons, List.not_mem_nil, or_false] at heffect
        rcases heffect with rfl | rfl | rfl <;> trivial

theorem detach (text : String) :
    Ensures fails (fun update => ∀ effect ∈ update.effects, effect.Placed)
      ((v.detach text).answer disk) := by
  refine (h.path text).query_refusal.query_bind fun path _ => ?_
  cases path.getLast? with
  | none => exact h.refuse (by decide)
  | some name =>
    refine (h.locate text 1).query_bind fun located hknown => ?_
    refine (h.slots hknown).query_bind fun slots _ => ?_
    split
    · exact fun effect heffect => List.mem_singleton.mp heffect ▸ trivial
    · exact h.refuse (by decide)

theorem detached {text : String} {blocks : List UInt32} :
    Ensures fails (fun update : Update Unit => v.bitmap.Accounts update.effects)
      (Query.answer disk (do
        return ⟨(), (← v.detach text).effects ++ Effect.deallocate blocks⟩)) := by
  refine (h.detach text).query_bind fun detached hplaced => ?_
  exact .gives hplaced

theorem deleteFile (text : String) :
    Ensures fails (fun update => v.bitmap.Accounts update.effects)
      ((v.deleteFile text).answer disk) := by
  refine (h.locate text 0).query_bind fun located hknown => ?_
  dsimp only
  split
  · exact h.refuse (by decide)
  · refine (h.length hknown).query_refusal.query_bind fun _ _ => ?_
    rw [Inode.blocks_eq]
    exact h.detached

theorem deleteDirectory (text : String) :
    Ensures fails (fun update => v.bitmap.Accounts update.effects)
      ((v.deleteDirectory text).answer disk) := by
  refine (h.locate text 0).query_bind fun located hknown => ?_
  dsimp only
  split
  · exact h.refuse (by decide)
  · refine (h.slots hknown).query_bind fun slots _ => ?_
    split
    · exact h.detached
    · exact h.refuse (by decide)

theorem rename (source target : String) :
    Ensures fails (fun update => v.bitmap.Accounts update.effects)
      ((v.rename source target).answer disk) := by
  refine (h.locate source 0).query_bind fun _ _ => ?_
  refine (h.locate target 0).query_attempt.query_bind fun found hfound => ?_
  split
  · exact h.refuse (by decide)
  · refine (h.path source).query_refusal.query_bind fun sourcePath _ => ?_
    refine (h.path target).query_refusal.query_bind fun targetPath _ => ?_
    cases sourcePath.getLast? with
    | none => exact h.refuse (by decide)
    | some oldName =>
      cases targetPath.getLast? with
      | none => exact h.refuse (by decide)
      | some newName =>
        dsimp only
        split
        · exact h.refuse (by decide)
        · refine (h.locate source 1).query_bind fun located hknown => ?_
          refine (h.slots hknown).query_bind fun slots _ => ?_
          split
          · exact Bitmap.Accounts.write trivial
          · exact h.refuse (by decide)
  · exact hfound

theorem restored (hknown : known id inode) {other : Inode} :
    Ensures fails (fun update : Update Unit => v.bitmap.Accounts update.effects)
      (Query.answer disk (do return ⟨(), [← Effect.storeInode v.superblock id other]⟩)) := by
  refine (storeInode (h.range hknown)).query_refusal.query_bind fun store hstore => ?_
  exact Bitmap.Accounts.write (by rw [hstore]; trivial)

theorem setPermissions (text : String) (permissions : UInt32) :
    Ensures fails (fun update => v.bitmap.Accounts update.effects)
      ((v.setPermissions text permissions).answer disk) :=
  (h.locate text 0).query_bind fun _ hknown => h.restored hknown

theorem setModified (text : String) (mtime : UInt32) :
    Ensures fails (fun update => v.bitmap.Accounts update.effects)
      ((v.setModified text mtime).answer disk) := by
  refine (h.locate text 0).query_bind fun located hknown => ?_
  dsimp only
  split
  · exact h.restored hknown
  · exact h.refuse (by decide)

/-! ### Plans for data -/

theorem shrinkFile (hknown : known id inode) (length : Nat) :
    Ensures fails (fun update => v.bitmap.Accounts update.effects)
      (v.shrinkFile id inode length) := by
  rw [Volume.shrinkFile]
  split
  · refine (h.boundedLength hknown).bind fun old hold => ?_
    obtain ⟨rfl, hlimit⟩ := hold
    split
    · exact h.ordinary (by decide)
    · have hcount : blocksToHold length ≤ inode.blockCount := Nat.le_min.mpr
        ⟨blocksToHold_mono (Nat.le_of_not_lt ‹_›), blocksToHold_le_pointerCount (by omega)⟩
      have hroom : blocksToHold length +
          (List.replicate (inode.dropped length).length (0 : UInt32)).length ≤ pointerCount := by
        have := inode.blockCount_le
        rw [List.length_replicate, Inode.length_dropped]
        omega
      obtain ⟨pointers, hpointers⟩ := Window.write_eq_ok (v := inode.pointers) hroom
      rw [Window.read_eq_ok hcount inode.blockCount_le, Inode.take_pointers]
      refine Ensures.ok_bind ?_
      rw [← Inode.dropped, hpointers]
      refine Ensures.ok_bind ?_
      refine (storeInode (h.range hknown)).bind fun store hstore => ?_
      exact .give (by rw [hstore]; trivial) _
  · exact h.ordinary (by decide)

theorem truncate (text : String) (length : Int) :
    Ensures fails (fun update => v.bitmap.Accounts update.effects)
      ((v.truncate text length).answer disk) := by
  rw [Volume.truncate]
  split
  · exact h.refuse (by decide)
  · exact (h.locate text 0).query_bind fun _ hknown => (h.shrinkFile hknown _).query_lift

theorem grow {last : Nat} (hlast : last < pointerCount) :
    Ensures fails (fun grown => grown.2 = [] ∨ ∃ wanted blocks,
        v.bitmap.Offers wanted blocks ∧ grown.2 = Effect.allocate blocks)
      (v.grow inode last) := by
  rw [Volume.grow]
  split
  · exact .inl rfl
  · have hwanted : last + 1 - inode.blockCount < Bitmap.requestLimit := by
      unfold pointerCount at hlast
      unfold Bitmap.requestLimit
      omega
    refine (h.firstFit hwanted).bind fun blocks hoffers => ?_
    have hroom : inode.blockCount + blocks.length ≤ pointerCount := by
      rw [hoffers.length]
      omega
    obtain ⟨pointers, hpointers⟩ := Window.write_eq_ok (v := inode.pointers) hroom
    rw [hpointers]
    exact .inr ⟨_, blocks, hoffers, rfl⟩

theorem overwrite (hknown : known id inode) (now : UInt32) {offset : Nat} {bytes : List UInt8}
    (hbytes : bytes ≠ []) (hlimit : offset + bytes.length ≤ maxFileSize) :
    Ensures fails (fun update => v.bitmap.Accounts update.effects)
      (v.overwrite now id inode offset bytes) := by
  have hpos := List.length_pos_iff.mpr hbytes
  have hlast : (offset + bytes.length - 1) / blockSize < pointerCount := by
    unfold maxFileSize at hlimit
    unfold blockSize pointerCount
    omega
  rw [Volume.overwrite]
  refine (h.grow hlast).bind fun grown hgrown => ?_
  obtain ⟨grown, allocate⟩ := grown
  refine (storeInode (h.range hknown)).bind fun store hstore => ?_
  rw [Inode.extent_eq _ (by omega) hlimit]
  refine Ensures.ok_bind ?_
  rw [Inode.spread_eq]
  refine Ensures.ok_bind ?_
  have hplaced : ∀ (i : Inode), ∀ effect ∈ store :: i.patches offset bytes, effect.Placed := by
    intro i effect heffect
    rcases List.mem_cons.mp heffect with rfl | hpatch
    · rw [hstore]
      trivial
    · obtain ⟨k, start, part, rfl, -, hfit⟩ := Inode.mem_patches hlimit hpatch
      exact hfit
  rcases hgrown with hnone | ⟨wanted, blocks, hoffers, hallocate⟩
  · obtain rfl : allocate = [] := hnone
    exact .writes (hplaced _)
  · obtain rfl : allocate = Effect.allocate blocks := hallocate
    exact .take hoffers (hplaced _)

theorem writeFile (hknown : known id inode) (now : UInt32) (offset : Nat) (bytes : List UInt8) :
    Ensures fails (fun update => v.bitmap.Accounts update.effects)
      (v.writeFile now id inode offset bytes) := by
  rw [Volume.writeFile]
  split
  · refine (h.boundedLength hknown).bind fun length hlength => ?_
    split
    · exact h.ordinary (by decide)
    split
    · exact .writes fun _ heffect => absurd heffect List.not_mem_nil
    · rename_i hsome
      split
      · exact h.ordinary (by decide)
      · exact h.overwrite hknown now (by rwa [List.isEmpty_iff] at hsome)
          (Nat.le_of_not_lt ‹_›)
  · exact h.ordinary (by decide)

theorem write (now : UInt32) (text : String) (offset : Nat) (bytes : List UInt8) :
    Ensures fails (fun update => v.bitmap.Accounts update.effects)
      ((v.write now text offset bytes).answer disk) :=
  (h.locate text 0).query_bind fun _ hknown => (h.writeFile hknown now offset bytes).query_lift

theorem readable (hknown : known id inode) (offset count : Nat) :
    Ensures fails (fun segments => segments = [] ∨ ∃ stop, offset < stop ∧ stop ≤ inode.length ∧
        stop ≤ offset + count ∧
        segments = (blockRange offset stop).map (inode.segment offset stop))
      (inode.readable offset count) := by
  rw [Inode.readable]
  split
  · refine (h.boundedLength hknown).bind fun length hlength => ?_
    obtain ⟨rfl, hlimit⟩ := hlength
    split
    · exact .inl rfl
    · rw [Inode.extent_eq _ (by omega) (by omega)]
      exact .inr ⟨_, by omega, by omega, by omega, rfl⟩
  · exact h.ordinary (by decide)

/-- Whatever a call decides to change, it accounts for the blocks it takes and gives back. -/
theorem effects (now : UInt32) (request : Request) :
    Ensures fails v.bitmap.Accounts ((request.effects v now).answer disk) := by
  cases request with
  | create text permissions type owner =>
    exact (h.create now permissions text type owner).query_bind fun _ haccounts => haccounts
  | deleteFile text => exact (h.deleteFile text).query_bind fun _ haccounts => haccounts
  | deleteDirectory text => exact (h.deleteDirectory text).query_bind fun _ haccounts => haccounts
  | rename source target => exact (h.rename source target).query_bind fun _ haccounts => haccounts
  | setPermissions text mode =>
    exact (h.setPermissions text mode).query_bind fun _ haccounts => haccounts
  | setModified text mtime =>
    exact (h.setModified text mtime).query_bind fun _ haccounts => haccounts
  | truncate text length => exact (h.truncate text length).query_bind fun _ haccounts => haccounts
  | write text offset bytes =>
    exact (h.write now text offset bytes).query_bind fun _ haccounts => haccounts
  | _ => exact .writes nofun

end Questions

end Volume

/-! ### Intact file systems -/

def Failure.Ordinary : Failure → Prop
  | .refused reason => reason.Ordinary
  | _ => False

theorem Disk.walk_ordinary (d : Disk) (id : UInt32) (path : Path) :
    Ensures Failure.Ordinary (fun _ => True) (Failure.ofRefusal (d.walk id path)) := by
  induction path generalizing id with
  | nil => exact trivial
  | cons name rest ih =>
    rw [walk]
    split
    · split
      · exact ih _
      · exact ⟨by decide, by decide⟩
    · exact ⟨by decide, by decide⟩

theorem Content.Mounted.questions {c : Content} {diskSize : UInt32} (h : c.Mounted diskSize) :
    c.volume.Questions c.disk Failure.Ordinary
      fun id inode => c.disk.Reachable id ∧ inode = c.disk.inode id where
  ordinary hordinary := hordinary
  fits := h.fits
  blocks := by
    rw [h.bitmap, h.superblock]
    rfl
  reach path depth := by
    have hwalk := c.disk.walk_ordinary rootId (path.take (path.length - depth))
    rw [h.reach_answer]
    cases heq : c.disk.walk rootId (path.take (path.length - depth)) with
    | error reason =>
      rw [heq] at hwalk
      exact hwalk
    | ok id =>
      have hid := Disk.walk_reachable Disk.reachable_root heq
      have hload : Ensures Failure.Ordinary (fun inode => c.disk.Reachable id ∧
          inode = c.disk.inode id) ((c.volume.superblock.loadInode id).answer c.disk) := by
        rw [h.loadInode_answer hid]
        exact ⟨hid, rfl⟩
      exact hload
  slots := by
    rintro id inode ⟨hid, rfl⟩
    rw [h.slots_answer hid]
    split
    · intro slot hslot
      rw [h.loadInode_answer (hid.child_of_entries ‹_› hslot)]
      exact trivial
    · exact ⟨by decide, by decide⟩
  length := by
    rintro id inode ⟨hid, rfl⟩
    rw [(h.consistent.formed hid).boundedLength]
    exact trivial
  range := by
    rintro id inode ⟨hid, -⟩
    rw [h.checkRange_reachable hid]
    exact trivial

/-! ### Arbitrary disks -/

def Failure.Refusal : Failure → Prop
  | .refused _ => True
  | _ => False

namespace Ensures

theorem refusal {α : Type} (result : Except Error α) :
    Ensures Failure.Refusal (fun _ => True) (Failure.ofRefusal result) := by
  cases result <;> exact trivial

theorem block (disk : Disk) (id : UInt32) :
    Ensures Failure.Refusal (fun _ => True) ((Query.block id).answer disk) := by
  rw [Query.answer_block]
  split <;> exact trivial

theorem loadInode (disk : Disk) (sb : Superblock) (id : UInt32) :
    Ensures Failure.Refusal (fun _ => True) ((sb.loadInode id).answer disk) := by
  refine (refusal (sb.checkRange id)).query_refusal.query_bind fun _ _ => ?_
  exact (block disk id).query_bind fun _ _ => trivial

theorem slots (disk : Disk) (i : Inode) :
    Ensures Failure.Refusal (fun _ => True) (i.slots.answer disk) := by
  rw [Inode.slots]
  split
  · exact (block disk i.slotsBlock).query_bind fun _ _ => trivial
  · exact trivial

theorem child (disk : Disk) (i : Inode) (name : Name) :
    Ensures Failure.Refusal (fun _ => True) ((i.child name).answer disk) := by
  refine (slots disk i).query_bind fun slots _ => ?_
  split <;> exact trivial

theorem walk (disk : Disk) (sb : Superblock) (id : UInt32) (path : Path) :
    Ensures Failure.Refusal (fun _ => True) ((sb.walk id path).answer disk) := by
  induction path generalizing id with
  | nil => exact trivial
  | cons name rest ih =>
    refine (loadInode disk sb id).query_bind fun inode _ => ?_
    exact (child disk inode name).query_bind fun slot _ => ih slot.inode

end Ensures

/-- The bitmap is for the blocks of the file system, and has a bit for each of them. -/
structure Volume.Sized (v : Volume) : Prop where
  fits : v.bitmap.Fits
  blocks : v.bitmap.blocks = v.superblock.diskSize

/-- On an arbitrary disk the questions of a volume may be refused for any reason, and that is all
that can happen to them. -/
theorem Volume.Sized.questions {v : Volume} (h : v.Sized) (disk : Disk) :
    v.Questions disk Failure.Refusal fun _ _ => True where
  ordinary _ := trivial
  fits := h.fits
  blocks := h.blocks
  reach _ _ := (Ensures.walk disk v.superblock rootId _).mono fun id _ =>
    Ensures.loadInode disk v.superblock id
  slots {_ inode} _ := (Ensures.slots disk inode).mono fun _ _ slot _ =>
    Ensures.loadInode disk v.superblock slot.inode
  length _ := Ensures.refusal _
  range _ := Ensures.refusal _

theorem Volume.load_ensures (deviceBlocks : Nat) (disk : Disk) :
    Ensures Failure.Refusal (fun v : Volume => v.Sized ∧ v.usage.Counts v.bitmap)
      ((Volume.load deviceBlocks).answer disk) := by
  have hsuper : Ensures Failure.Refusal (fun sb => sb.diskSize.toNat ≤ maxDiskBlocks)
      ((Superblock.load deviceBlocks).answer disk) := by
    refine (Ensures.block disk superblockId).query_bind fun block _ => ?_
    dsimp only
    split
    · exact trivial
    · rw [Superblock.checkFit]
      split
      · exact trivial
      · rename_i hfit
        exact Nat.le_of_not_lt fun hlarge => hfit (.inr (.inl hlarge))
  have hbitmap : ∀ blocks, Ensures Failure.Refusal (fun bitmap : Bitmap => bitmap.blocks = blocks)
      ((Bitmap.load blocks).answer disk) := fun _ =>
    (Ensures.block disk bitmapId).query_bind fun _ _ => rfl
  refine hsuper.query_bind fun superblock hhigh => ?_
  refine (hbitmap superblock.diskSize).query_bind fun bitmap hblocks => ?_
  have hfits : bitmap.Fits := by rwa [Bitmap.Fits, hblocks]
  obtain ⟨usage, husage, hcounts⟩ := Usage.ofBitmap_counts hfits
  rw [husage]
  refine (Ensures.loadInode disk superblock rootId).query_bind fun root _ => ?_
  split
  · exact ⟨⟨hfits, hblocks⟩, hcounts⟩
  · exact trivial

end BlockFS
