import BlockFS.Proofs.Data.Exposure
import BlockFS.Proofs.Data.File
import BlockFS.Proofs.Invariant.Creation

/-!
What calls bring to light. A byte that can be found out after a call could be found out before it,
or the call gave it a value of its own. So nothing is seen of what blocks held before they were
taken, and where two disks hold the same bytes as far as these can be found out, they still do after
the same effects.
-/

set_option autoImplicit false
set_option relaxedAutoImplicit false

namespace BlockFS

theorem Block.get_overlaid_congr {b b' : Block} {index : Fin blockSize}
    (h : b'.get index = b.get index) (start : Nat) (bytes : List UInt8) :
    (b'.overlaid start bytes).get index = (b.overlaid start bytes).get index := by
  by_cases hfit : start + bytes.length ≤ blockSize
  · apply Option.some.inj
    rw [get_overlaid b' hfit, get_overlaid b hfit, h]
  · rw [overlaid, overlaid, Window.write, Window.write, dif_neg hfit, dif_neg hfit]
    exact h

namespace Effect

variable {c c' : Content} {block : UInt32} {index : Fin blockSize}

theorem volume_congr (h : c'.volume = c.volume) (effect : Effect) :
    (effect.change c').volume = (effect.change c).volume := by
  cases effect with
  | store | overlay | saveBitmap => exact h
  | mark ids used => simp only [change, h]
  | charge count =>
    simp only [change, h]
    cases c.volume.usage.charge count <;> simp [h]
  | credit count =>
    simp only [change, h]
    cases c.volume.usage.credit count <;> simp [h]

theorem byte_congr (h : c'.volume = c.volume)
    (hbyte : (c'.disk.block block).get index = (c.disk.block block).get index) (effect : Effect) :
    ((effect.change c').disk.block block).get index =
      ((effect.change c).disk.block block).get index := by
  cases effect with
  | store id contents =>
    rw [change, change, Disk.block_set, Disk.block_set]
    split
    · rfl
    · exact hbyte
  | overlay id start bytes =>
    rw [change, change, Disk.block_set, Disk.block_set]
    split
    · subst id
      exact Block.get_overlaid_congr hbyte start bytes
    · exact hbyte
  | saveBitmap =>
    rw [change, change, Disk.block_set, Disk.block_set, h]
    split
    · rfl
    · exact hbyte
  | mark => exact hbyte
  | charge count =>
    simp only [change, h]
    cases c.volume.usage.charge count <;> exact hbyte
  | credit count =>
    simp only [change, h]
    cases c.volume.usage.credit count <;> exact hbyte

/-- Effects that give a byte a value, whatever the disk was. -/
def Settles (effects : List Effect) (block : UInt32) (index : Fin blockSize) : Prop :=
  ∀ ⦃c c' : Content⦄, c'.volume = c.volume →
    ((c'.after effects).disk.block block).get index =
      ((c.after effects).disk.block block).get index

end Effect

namespace Content

open Effect (Settles)

variable {c c' : Content} {diskSize id block : UInt32} {index : Fin blockSize}
  {first second effects : List Effect}

theorem volume_after_congr (h : c'.volume = c.volume) (effects : List Effect) :
    (c'.after effects).volume = (c.after effects).volume := by
  induction effects generalizing c c' with
  | nil => exact h
  | cons effect rest ih => exact ih (effect.volume_congr h)

theorem byte_after_congr (h : c'.volume = c.volume)
    (hbyte : (c'.disk.block block).get index = (c.disk.block block).get index)
    (effects : List Effect) :
    ((c'.after effects).disk.block block).get index =
      ((c.after effects).disk.block block).get index := by
  induction effects generalizing c c' with
  | nil => exact hbyte
  | cons effect rest ih => exact ih (effect.volume_congr h) (effect.byte_congr h hbyte)

theorem settles_append_left (h : Settles first block index) :
    Settles (first ++ second) block index := by
  intro c c' hvolume
  rw [after_append, after_append]
  exact byte_after_congr (volume_after_congr hvolume first) (h hvolume) second

theorem settles_append_right (h : Settles second block index) :
    Settles (first ++ second) block index := by
  intro c c' hvolume
  rw [after_append, after_append]
  exact h (volume_after_congr hvolume first)

theorem settles_of_mem {contents : Block} (h : .store block contents ∈ effects) :
    Settles effects block index := by
  obtain ⟨first, second, rfl⟩ := List.append_of_mem h
  apply settles_append_right
  intro c c' hvolume
  refine byte_after_congr (Effect.volume_congr hvolume _) ?_ second
  rw [Effect.change, Effect.change, Disk.block_set, Disk.block_set, if_pos rfl, if_pos rfl]

/-- Of the bytes that can be found out afterwards, effects settle those that could not before. -/
def Conceals (c : Content) (effects : List Effect) : Prop :=
  ∀ ⦃block index⦄, (c.after effects).disk.Exposed block index →
    c.disk.Exposed block index ∨ Settles effects block index

theorem Conceals.bookkeeping (h : c.Conceals first) (hmounted : (c.after first).Mounted diskSize)
    (hbook : ∀ effect ∈ second, effect.Bookkeeping) : c.Conceals (first ++ second) := by
  intro block index hexposed
  obtain ⟨-, hsame⟩ := hmounted.bookkeeping hbook
  rw [after_append] at hexposed
  exact (h (hsame.exposed_iff.mp hexposed)).imp_right settles_append_left

namespace Mounted

variable (h : c.Mounted diskSize)

include h

theorem conceals_restamp (hid : c.disk.Reachable id) {j : Inode}
    (hshape : (c.disk.inode id).SameShape j) : c.Conceals [.store id j.encode] := by
  intro block index hexposed
  rcases (Disk.rewrites_sameShape hid hshape).exposed h.consistent hexposed with hbefore | hshows
  · exact .inl hbefore
  · exact .inl ⟨id, hid, hshape.shows hshows⟩

theorem conceals_shrink (hid : c.disk.Reachable id) (hregular : (c.disk.inode id).isRegular = true)
    {length : Nat} (hlength : length ≤ (c.disk.inode id).length) :
    c.Conceals (.store id ((c.disk.inode id).shrunk length).encode ::
      Effect.deallocate ((c.disk.inode id).dropped length)) := by
  have hstore : c.Conceals [.store id ((c.disk.inode id).shrunk length).encode] := by
    intro block index hexposed
    have hrewrites := Disk.rewrites_file (j := (c.disk.inode id).shrunk length) hid hregular rfl
    rcases hrewrites.exposed h.consistent hexposed with hbefore | hshows
    · exact .inl hbefore
    · have hformed := h.consistent.formed hid
      exact .inl ⟨id, hid, Inode.shows_of_shrunk hformed hregular hlength hshows⟩
  exact hstore.bookkeeping (h.written_shrunk hid hregular hlength).mounted
    fun _ => Effect.bookkeeping_deallocate

/-- A write begins inside a file or at its end, so it settles all that is new of it. -/
theorem conceals_extend {now : UInt32} {offset : Nat} {bytes : List UInt8} {blocks : List UInt32}
    (hoffset : offset ≤ (c.disk.inode id).length)
    (he : Extends c diskSize id (offset + bytes.length) blocks) :
    c.Conceals (Effect.growth blocks ++
      .store id ((c.disk.inode id).written now (offset + bytes.length) blocks).encode ::
        ((c.disk.inode id).written now (offset + bytes.length) blocks).patches offset bytes) := by
  intro block index hexposed
  have hrewrites := h.rewrites he.reachable he.regular
    (j := (c.disk.inode id).written now (offset + bytes.length) blocks) he.regular
    (Effect.growth blocks)
    (((c.disk.inode id).written now (offset + bytes.length) blocks).patches offset bytes)
    (he.onData_rest h now)
  rcases hrewrites.exposed h.consistent hexposed with hbefore | hshows
  · exact .inl hbefore
  have hformed := h.consistent.formed he.reachable
  rcases Inode.shows_of_written hformed he.regular hoffset he.limit hshows with
    hbefore | ⟨position, hlow, hhigh, rfl, rfl⟩
  · exact .inl ⟨id, he.reachable, hbefore⟩
  · right
    rw [← List.singleton_append, ← List.append_assoc]
    apply settles_append_right
    intro c₁ c₂ _
    have hposition : position < max (c.disk.inode id).length (offset + bytes.length) := by omega
    have hbyte := he.byteAt_patched h now hposition
    have hfirst := hbyte c₁
    have hsecond := hbyte c₂
    rw [if_pos ⟨hlow, hhigh⟩] at hfirst hsecond
    exact Option.some.inj (hsecond.trans hfirst.symm)

theorem conceals_detach {parent child : UInt32} {k : Fin slotCount}
    (hparent : c.disk.Reachable parent) (hlink : c.disk.Links parent k child)
    (hleaf : ∀ j other, ¬ c.disk.Links child j other) :
    c.Conceals (c.disk.detached parent k :: Effect.deallocate (c.disk.released child)) := by
  have hdetach : c.Conceals [c.disk.detached parent k] := fun _ _ hexposed =>
    .inl ((Disk.releases_set hparent hlink hleaf).exposed h.consistent hexposed)
  exact hdetach.bookkeeping (h.written_detached hparent hlink hleaf).mounted
    fun _ => Effect.bookkeeping_deallocate

theorem conceals_plan {paths : List Path} (hplan : Plan c diskSize paths effects) :
    c.Conceals effects := by
  cases hplan with
  | nothing => exact fun _ _ => .inl
  | restamp hwalk hshape =>
    exact h.conceals_restamp (Disk.walk_reachable Disk.reachable_root hwalk) hshape
  | shrink hwalk hregular hlength =>
    exact h.conceals_shrink (Disk.walk_reachable Disk.reachable_root hwalk) hregular hlength
  | extend _ hoffset hextends _ => exact h.conceals_extend hoffset hextends
  | detach hentry hleaf => exact h.conceals_detach hentry.reachable hentry.links hleaf
  | rename hentry hname hfind =>
    exact fun _ _ hexposed => .inl ((Disk.renames_set hentry.reachable hentry.links hname
      hfind).exposed h.consistent hexposed)

theorem conceals_create {parent : UInt32} {k : Fin slotCount} {name : Name} {blank : List UInt32}
    {type : FileType} (hc : Creates c diskSize parent k name id blank type)
    (permissions now : UInt32) (owner : Owner) :
    c.Conceals (creation c parent k name id blank
      (Inode.fresh type permissions owner now blank.head?) ++ Effect.allocate (id :: blank)) := by
  have hcreation : c.Conceals (creation c parent k name id blank
      (Inode.fresh type permissions owner now blank.head?)) := by
    intro block index hexposed
    rcases (hc.inserts h permissions now owner).exposed h.consistent hexposed with hbefore | hshows
    · exact .inl hbefore
    · right
      rw [hc.inode_after] at hshows
      rcases List.mem_cons.mp (Inode.mem_of_shows_fresh hc.length hshows) with rfl | hblank
      · exact settles_of_mem List.mem_cons_self
      · have hstore : Effect.store block Block.zero ∈ creation c parent k name id blank
            (Inode.fresh type permissions owner now blank.head?) :=
          List.mem_cons_of_mem _ (List.mem_cons_of_mem _ (List.mem_map_of_mem hblank))
        exact settles_of_mem hstore
  exact hcreation.bookkeeping (hc.written h permissions now owner).mounted
    fun _ => Effect.bookkeeping_allocate

end Mounted

theorem Safe.conceals_request (h : c.Safe diskSize) {now : UInt32} {request : Request}
    (hplan : (request.effects c.volume now).answer c.disk = .ok effects) : c.Conceals effects := by
  by_cases hcreate : request.IsCreate
  · cases request with
    | create text permissions type owner =>
      obtain ⟨update, hupdate, rfl⟩ := Query.answer_map_eq_ok.mp hplan
      obtain ⟨path, name, parent, k, id, blank, -, -, hcreates, -, rfl⟩ := h.of_create hupdate
      exact h.mounted.conceals_create hcreates permissions now owner
    | _ => exact hcreate.elim
  · obtain ⟨paths, -, hplan⟩ := h.plan_request hcreate hplan
    exact h.mounted.conceals_plan hplan

/-! ### Two contents -/

/-- Two contents with the same in memory, whose disks hold the same bytes as far as these can be
found out. -/
structure Alike (c c' : Content) : Prop where
  volume : c'.volume = c.volume
  disk : Disk.Alike c.disk c'.disk

/-- Effects that settle what they bring to light leave alike what was. -/
theorem Alike.after (h : Alike c c') (hconceals : c.Conceals effects) :
    Alike (c.after effects) (c'.after effects) where
  volume := volume_after_congr h.volume effects
  disk _ _ hexposed := by
    rcases hconceals hexposed with hbefore | hsettles
    · exact byte_after_congr h.volume (h.disk hbefore) effects
    · exact hsettles h.volume

end Content

end BlockFS
