import BlockFS.Proofs.Data.Contents
import BlockFS.Proofs.Tree.Insert
import BlockFS.Proofs.Volume.Transitions

/-!
The bytes of a disk that can be found out: those of the inodes of the tree and of the slots of its
directories, and the data of its files up to their lengths. What a block held before it was taken,
and what is behind the end of a file, is not among them.
-/

set_option autoImplicit false
set_option relaxedAutoImplicit false

namespace BlockFS

/-- The bytes that an inode of the given number leads to. -/
inductive Inode.Shows (i : Inode) (id : UInt32) : UInt32 → Fin blockSize → Prop
  | self (index : Fin blockSize) : Shows i id id index
  | slots (hdirectory : i.isDirectory = true) (index : Fin blockSize) : Shows i id i.slotsBlock index
  | data {position : Nat} (hregular : i.isRegular = true) (hposition : position < i.length) :
      Shows i id (i.pointer (position / blockSize))
        ⟨position % blockSize, Nat.mod_lt position (by decide)⟩

namespace Inode

variable {i j : Inode} {id block : UInt32} {index : Fin blockSize}

theorem SameShape.shows (h : i.SameShape j) (hshows : j.Shows id block index) :
    i.Shows id block index := by
  cases hshows with
  | self => exact .self index
  | slots hdirectory =>
    rw [h.slotsBlock]
    exact .slots (h.isDirectory.symm.trans hdirectory) index
  | data hregular hposition =>
    rw [h.pointer]
    exact .data (h.isRegular.symm.trans hregular) (h.length ▸ hposition)

theorem shows_of_shrunk (hi : i.WellFormed) (hregular : i.isRegular = true) {length : Nat}
    (hlength : length ≤ i.length) (hshows : (i.shrunk length).Shows id block index) :
    i.Shows id block index := by
  cases hshows with
  | self => exact .self index
  | slots hdirectory => exact absurd hdirectory (not_isDirectory_of_isRegular hregular)
  | @data position _ hposition =>
    rw [length_shrunk i (Nat.le_trans hlength hi.length_le)] at hposition
    rw [i.pointer_shrunk]
    · exact .data hregular (Nat.lt_of_lt_of_le hposition hlength)
    · rw [lt_blocksToHold_iff]
      exact Nat.lt_of_le_of_lt (Nat.div_mul_le_self position blockSize) hposition

/-- A file that is written from a position inside it, or at its end, shows no more but what is
written. -/
theorem shows_of_written (hi : i.WellFormed) (hregular : i.isRegular = true) {now : UInt32}
    {offset stop : Nat} (hoffset : offset ≤ i.length) (hstop : stop ≤ maxFileSize)
    {blocks : List UInt32} (hshows : (i.written now stop blocks).Shows id block index) :
    i.Shows id block index ∨ ∃ position, offset ≤ position ∧ position < stop ∧
      block = (i.written now stop blocks).pointer (position / blockSize) ∧
      index = ⟨position % blockSize, Nat.mod_lt position (by decide)⟩ := by
  cases hshows with
  | self => exact .inl (.self index)
  | slots hdirectory => exact absurd hdirectory (not_isDirectory_of_isRegular hregular)
  | @data position _ hposition =>
    rw [length_written hi now hstop] at hposition
    by_cases hrange : offset ≤ position ∧ position < stop
    · exact .inr ⟨position, hrange.1, hrange.2, rfl, rfl⟩
    · have hinside : position < i.length := by omega
      rw [i.pointer_written now stop blocks (div_lt_blockCount hi hinside)]
      exact .inl (.data hregular hinside)

theorem mem_of_shows_fresh {type : FileType} {permissions now : UInt32} {owner : Owner}
    {blank : List UInt32} (hlength : (id :: blank).length = type.blockCount)
    (hshows : (fresh type permissions owner now blank.head?).Shows id block index) :
    block ∈ id :: blank := by
  cases type with
  | regular =>
    obtain ⟨-, hfile, hempty⟩ := fresh_regular permissions owner now blank.head?
    cases hshows with
    | self => exact List.mem_cons_self
    | slots hdirectory => exact absurd (hfile.symm.trans hdirectory) Bool.false_ne_true
    | data _ hposition =>
      rw [hempty] at hposition
      exact absurd hposition (Nat.not_lt_zero _)
  | directory =>
    obtain ⟨slots, rfl⟩ : ∃ slots, blank = [slots] :=
      List.length_eq_one_iff.mp (Nat.succ.inj hlength)
    obtain ⟨-, hdirectory, hslots⟩ := fresh_directory permissions owner now slots
    cases hshows with
    | self => exact List.mem_cons_self
    | slots =>
      rw [List.head?_cons, hslots]
      exact List.mem_cons_of_mem _ List.mem_cons_self
    | data hregular => exact absurd hdirectory (not_isDirectory_of_isRegular hregular)

end Inode

namespace Disk

variable {d d' : Disk} {diskSize id block : UInt32} {index : Fin blockSize}

def Exposed (d : Disk) (block : UInt32) (index : Fin blockSize) : Prop :=
  ∃ id, d.Reachable id ∧ (d.inode id).Shows id block index

theorem Structural.exposed (h : d.Structural block) (index : Fin blockSize) :
    d.Exposed block index := by
  rcases h with hid | ⟨id, hid, hdirectory, rfl⟩
  · exact ⟨block, hid, .self index⟩
  · exact ⟨id, hid, .slots hdirectory index⟩

theorem Rewrites.exposed {i : Inode} (h : Rewrites d d' id i) (hd : d.Consistent diskSize)
    (hexposed : d'.Exposed block index) : d.Exposed block index ∨ i.Shows id block index := by
  obtain ⟨other, hother, hshows⟩ := hexposed
  have hreachable := (h.reachable_iff hd).mp hother
  by_cases heq : other = id
  · subst heq
    rw [h.inode] at hshows
    exact .inr hshows
  · rw [h.inode_eq hreachable heq] at hshows
    exact .inl ⟨other, hreachable, hshows⟩

theorem Relists.exposed {directory : UInt32} {slots : Directory}
    (h : Relists d d' directory slots) (hd : d.Consistent diskSize)
    (hexposed : d'.Exposed block index) : d.Exposed block index ∨
      ∃ id, ¬ d.Reachable id ∧ d'.Reachable id ∧ (d'.inode id).Shows id block index := by
  obtain ⟨id, hid, hshows⟩ := hexposed
  by_cases hreachable : d.Reachable id
  · rw [h.inode_eq hd hreachable] at hshows
    exact .inl ⟨id, hreachable, hshows⟩
  · exact .inr ⟨id, hreachable, hid, hshows⟩

theorem Renames.exposed {directory : UInt32} {position : Fin slotCount} {name : Name}
    (h : Renames d d' directory position name) (hd : d.Consistent diskSize)
    (hexposed : d'.Exposed block index) : d.Exposed block index := by
  rcases h.relists.exposed hd hexposed with hbefore | ⟨id, hnew, hid, -⟩
  · exact hbefore
  · exact absurd ((h.reachable_iff hd).mp hid) hnew

theorem Releases.exposed {directory child : UInt32} {position : Fin slotCount}
    (h : Releases d d' directory position child) (hd : d.Consistent diskSize)
    (hexposed : d'.Exposed block index) : d.Exposed block index := by
  rcases h.relists.exposed hd hexposed with hbefore | ⟨id, hnew, hid, -⟩
  · exact hbefore
  · exact absurd ((h.reachable_iff hd).mp hid).1 hnew

theorem Inserts.exposed {directory child : UInt32} {position : Fin slotCount} {name : Name}
    (h : Inserts d d' diskSize directory position name child) (hd : d.Consistent diskSize)
    (hexposed : d'.Exposed block index) :
    d.Exposed block index ∨ (d'.inode child).Shows child block index := by
  rcases h.relists.exposed hd hexposed with hbefore | ⟨id, hnew, hid, hshows⟩
  · exact .inl hbefore
  · rcases (h.reachable_iff hd).mp hid with hold | rfl
    · exact absurd hold hnew
    · exact .inr hshows

theorem SameTree.exposed_iff (h : SameTree d d') :
    d'.Exposed block index ↔ d.Exposed block index := by
  constructor
  · rintro ⟨id, hid, hshows⟩
    have hreachable := h.reachable_iff.mp hid
    exact ⟨id, hreachable, h.inode_eq hreachable ▸ hshows⟩
  · rintro ⟨id, hid, hshows⟩
    exact ⟨id, h.reachable_iff.mpr hid, (h.inode_eq hid).symm ▸ hshows⟩

/-- The second disk holds the bytes of the first that can be found out. -/
def Alike (d d' : Disk) : Prop :=
  ∀ ⦃block index⦄, d.Exposed block index → (d'.block block).get index = (d.block block).get index

namespace Alike

variable (h : Alike d d')

include h

theorem sameTree : SameTree d d' := by
  intro block hblock
  apply Vector.ext
  intro k hk
  exact h (hblock.exposed ⟨k, hk⟩)

theorem contents_eq (hid : d.Reachable id) (hregular : (d.inode id).isRegular = true) :
    d'.contents (d.inode id) = d.contents (d.inode id) :=
  contents_congr rfl fun _ hposition => h ⟨id, hid, .data hregular hposition⟩

end Alike

end Disk

end BlockFS
