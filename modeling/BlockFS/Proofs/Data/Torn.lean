import BlockFS.Proofs.Data.File
import BlockFS.Proofs.Operation.Commit

/-!
Writes that end half way. The blocks of a write are taken first, then the inode is written, and then
the bytes go out block by block. Wherever this ends, the tree of names is as it was, only blocks of
the file and spare ones have been written, and the file holds the new bytes in the first so many
blocks of the range and its old bytes everywhere else.
-/

set_option autoImplicit false
set_option relaxedAutoImplicit false

namespace BlockFS

/-- The bytes of a file after a write that got through to some blocks of its range, from the first
on. The size may be set already though none was reached. -/
structure Torn (before after : List UInt8) (offset : Nat) (bytes : List UInt8) : Prop where
  length : after.length = before.length ∨
    after.length = max before.length (offset + bytes.length)
  outside : ∀ position < before.length, position < offset ∨ offset + bytes.length ≤ position →
    after[position]? = before[position]?
  inside : ∃ count, ∀ position < before.length, offset ≤ position →
    position < offset + bytes.length → after[position]? =
      if position / blockSize < offset / blockSize + count then bytes[position - offset]?
      else before[position]?

theorem Torn.refl (before : List UInt8) (offset : Nat) (bytes : List UInt8) :
    Torn before before offset bytes where
  length := .inl rfl
  outside _ _ _ := rfl
  inside := by
    refine ⟨0, fun position _ hoffset _ => ?_⟩
    rw [Nat.add_zero, if_neg (Nat.not_lt.mpr (Nat.div_le_div_right hoffset))]

private theorem take_middle {α : Type} (first rest : List α) (x : α) (count : Nat) :
    (first ++ x :: rest).take count = first.take count ∨
      ∃ past, (first ++ x :: rest).take count = first ++ x :: rest.take past := by
  rw [List.take_append]
  rcases Nat.le_total count first.length with hle | hle
  · exact .inl (by rw [Nat.sub_eq_zero_of_le hle, List.take_zero, List.append_nil])
  · cases hpast : count - first.length with
    | zero => exact .inl (by rw [List.take_zero, List.append_nil])
    | succ past => exact .inr ⟨past, by rw [List.take_of_length_le hle, List.take_succ_cons]⟩

namespace Content

variable {faults : Faults} {c c' : Content} {diskSize id : UInt32} {offset : Nat}
  {bytes : List UInt8} {blocks : List UInt32} (h : c.Mounted diskSize)
  (he : Extends c diskSize id (offset + bytes.length) blocks) (now : UInt32)

include h he

theorem Extends.getElem?_after_take (count : Nat) {position : Nat}
    (hposition : position < (c.disk.inode id).length) :
    ((c.after (Effect.growth blocks ++
      .store id ((c.disk.inode id).written now (offset + bytes.length) blocks).encode ::
        (((c.disk.inode id).written now (offset + bytes.length) blocks).patches offset
          bytes).take count)).disk.contents
            ((c.disk.inode id).written now (offset + bytes.length) blocks))[position]? =
      if (offset ≤ position ∧ position < offset + bytes.length) ∧
          position / blockSize < offset / blockSize + count then bytes[position - offset]?
      else (c.disk.contents (c.disk.inode id))[position]? := by
  have hlength := Inode.length_written (h.consistent.formed he.reachable) now he.limit blocks
  -- Up to the bytes, those of the file are found where they were.
  have hbyte := byteAt_after_take (c := c.after (Effect.growth blocks ++ [.store id
      ((c.disk.inode id).written now (offset + bytes.length) blocks).encode]))
      (he.distinct h now (Nat.lt_of_lt_of_le hposition (Nat.le_max_left _ _))) count
  simp only [← after_append, List.append_assoc, List.singleton_append] at hbyte
  have hlong := Nat.lt_of_lt_of_le hposition
    (Nat.le_max_left (c.disk.inode id).length (offset + bytes.length))
  rw [← hlength] at hlong
  rw [Disk.getElem?_contents hlong, hbyte, he.byteAt_before h now hposition,
    Disk.getElem?_contents hposition]

theorem Extends.torn (count : Nat) : Torn (c.disk.contents (c.disk.inode id))
    ((c.after (Effect.growth blocks ++
      .store id ((c.disk.inode id).written now (offset + bytes.length) blocks).encode ::
        (((c.disk.inode id).written now (offset + bytes.length) blocks).patches offset
          bytes).take count)).disk.contents
            ((c.disk.inode id).written now (offset + bytes.length) blocks)) offset bytes := by
  have hlength := Inode.length_written (h.consistent.formed he.reachable) now he.limit blocks
  refine ⟨.inr ?_, fun position hposition hout => ?_, count,
    fun position hposition hlow hhigh => ?_⟩
  · rw [Disk.length_contents, Disk.length_contents, hlength]
  · rw [Disk.length_contents] at hposition
    rw [he.getElem?_after_take h now count hposition, if_neg (by omega)]
  · rw [Disk.length_contents] at hposition
    rw [he.getElem?_after_take h now count hposition]
    simp only [hlow, hhigh, and_self, true_and]

theorem Extends.rewrites_take (count : Nat) : Disk.Rewrites c.disk (c.after (Effect.growth blocks ++
      .store id ((c.disk.inode id).written now (offset + bytes.length) blocks).encode ::
        (((c.disk.inode id).written now (offset + bytes.length) blocks).patches offset
          bytes).take count)).disk id
    ((c.disk.inode id).written now (offset + bytes.length) blocks) := by
  refine h.rewrites he.reachable he.regular
    (j := (c.disk.inode id).written now (offset + bytes.length) blocks) he.regular _ _ ?_
  intro effect heffect
  exact he.onData_rest h now effect
    (List.mem_append.mpr ((List.mem_append.mp heffect).imp_right List.mem_of_mem_take))

theorem Extends.target_before {index : Nat}
    (hindex : index ∈ blockRange offset (offset + bytes.length)) {effect : Effect}
    (heffect : effect ∈ Effect.growth blocks ++
      .store id ((c.disk.inode id).written now (offset + bytes.length) blocks).encode ::
        (((c.disk.inode id).written now (offset + bytes.length) blocks).patches offset
          bytes).take (index - offset / blockSize)) :
    effect.target ≠
      some (((c.disk.inode id).written now (offset + bytes.length) blocks).pointer index) := by
  obtain ⟨hlow, hhigh⟩ := mem_blockRange.mp hindex
  have hpatch : ((c.disk.inode id).written now (offset + bytes.length) blocks).patch offset bytes
      index ∈ ((c.disk.inode id).written now (offset + bytes.length) blocks).patches offset bytes :=
    List.mem_map_of_mem hindex
  intro htarget
  rcases List.mem_append.mp heffect with hgrowth | heffect
  · -- Taking blocks writes the bitmap, and no byte goes there.
    have hbitmap := Effect.bookkeeping_growth hgrowth _ htarget
    have hother := (he.written_data h now fun _ hmem => hmem).1.target _ hpatch
    exact hother (congrArg some hbitmap)
  · rcases List.mem_cons.mp heffect with rfl | hpatches
    · have hdata := he.onData_patches h now hpatch
      exact h.not_structural_of_onData he.regular hdata rfl
        (Option.some.inj htarget ▸ he.reachable.structural)
    · rw [Inode.patches, ← List.map_take] at hpatches
      obtain ⟨other, hother, rfl⟩ := List.mem_map.mp hpatches
      obtain ⟨hrange, hbefore⟩ := mem_take_blockRange.mp hother
      have hsame := he.distinct h now
        (Nat.lt_of_lt_of_le hhigh (Nat.le_max_right (c.disk.inode id).length _)) other
        (mem_blockRange.mp hrange).2
      rw [Nat.mul_div_cancel _ (by decide)] at hsame
      have hequal := hsame (Option.some.inj htarget)
      omega

/-- Wherever a write ends, the entries are as they were, only blocks of its own have been written,
and the file is torn at worst. -/
theorem Extends.ends (hends : Ends faults c (Effect.growth blocks ++
      .store id ((c.disk.inode id).written now (offset + bytes.length) blocks).encode ::
        ((c.disk.inode id).written now (offset + bytes.length) blocks).patches offset bytes) c') :
    Disk.SameEntries c.disk c'.disk ∧ Disk.TouchesOnly c.disk c'.disk id ∧
      (c'.disk.inode id).isRegular = true ∧
      Torn (c.disk.contents (c.disk.inode id)) (c'.disk.contents (c'.disk.inode id)) offset
        bytes := by
  have hdata := he.onData_rest h now
  obtain ⟨count, rfl⟩ := hends.exists_take
  have hwithin : ∀ effect ∈ (Effect.growth blocks ++
      .store id ((c.disk.inode id).written now (offset + bytes.length) blocks).encode ::
        ((c.disk.inode id).written now (offset + bytes.length) blocks).patches offset bytes).take
          count, c.Within diskSize id effect := by
    intro effect heffect
    apply Mounted.within_of_onData he.reachable
    rcases List.mem_cons.mp (List.perm_middle.mem_iff.mp (List.mem_of_mem_take heffect)) with
      rfl | hmem
    · exact .inl rfl
    · exact .inr (hdata effect hmem)
  have htouches := h.touchesOnly hwithin
  obtain hfront | ⟨past, hpast⟩ := take_middle (Effect.growth blocks)
    (((c.disk.inode id).written now (offset + bytes.length) blocks).patches offset bytes)
    (.store id ((c.disk.inode id).written now (offset + bytes.length) blocks).encode) count
  · -- Blocks have been taken at most, and none of the tree or of the file is written for that.
    have hbook : ∀ effect ∈ (Effect.growth blocks).take count, effect.Bookkeeping :=
      fun effect heffect => Effect.bookkeeping_growth (List.mem_of_mem_take heffect)
    obtain ⟨-, hsame⟩ := h.bookkeeping hbook
    rw [hfront] at htouches ⊢
    have hinode : (c.after ((Effect.growth blocks).take count)).disk.inode id = c.disk.inode id :=
      congrArg Inode.decode (hsame he.reachable.structural)
    refine ⟨hsame.sameEntries, htouches, ?_, ?_⟩
    · rw [hinode]
      exact he.regular
    · rw [hinode, Disk.contents_congr rfl fun position hposition => h.byteAt_after he.reachable _
        (fun effect heffect block htarget => .inr (hbook effect heffect block htarget)) hposition]
      exact Torn.refl _ _ _
  · rw [hpast] at htouches ⊢
    have hrewrites := he.rewrites_take h now past
    refine ⟨hrewrites.sameEntries h.consistent, htouches, ?_, ?_⟩
    · rw [hrewrites.inode]
      exact he.regular
    · rw [hrewrites.inode]
      exact he.torn h now past

end Content

end BlockFS
