import Mathlib.Algebra.Ring.Int.Defs
import BlockFS.Proofs.Operation.Target
import BlockFS.Proofs.Volume.DataPlans

/-!
What a list of effects does to the counter of free blocks. Only two kinds of effects count; when no
effect is refused, the counter moves by the sum of what each of them takes or gives.
-/

set_option autoImplicit false
set_option relaxedAutoImplicit false

namespace BlockFS

def Content.free (c : Content) : Nat := c.volume.usage.free.toNat

namespace Effect

def gain : Effect → Int
  | .charge count => -count
  | .credit count => count
  | _ => 0

/-- By how much a list of effects raises the counter of free blocks. -/
def balance (effects : List Effect) : Int := (effects.map gain).sum

@[simp] theorem gain_store (id : UInt32) (contents : Block) : (store id contents).gain = 0 := rfl

@[simp] theorem gain_storeSlots (directory : Inode) (slots : Directory) :
    (storeSlots directory slots).gain = 0 := rfl

theorem free_change {effect : Effect} {c : Content} (h : effect.Allowed c) :
    ((effect.change c).free : Int) = c.free + effect.gain := by
  cases effect with
  | charge count =>
    obtain ⟨usage, husage⟩ := h
    simp only [change, husage, Content.free, gain]
    rw [Usage.charge] at husage
    split at husage
    · cases husage
    · next hcount =>
      obtain rfl := Except.ok.inj husage
      rw [UInt32.toNat_ofNat_of_lt'
        (Nat.lt_of_le_of_lt (Nat.sub_le _ _) c.volume.usage.free.toNat_lt)]
      omega
  | credit count =>
    obtain ⟨usage, husage⟩ := h
    simp only [change, husage, Content.free, gain]
    rw [Usage.credit] at husage
    split at husage
    · cases husage
    · next hcount =>
      obtain rfl := Except.ok.inj husage
      rw [UInt32.toNat_ofNat_of_lt' (Nat.lt_of_not_le hcount)]
      exact Int.natCast_add _ _
  | store | overlay | mark | saveBitmap => exact (Int.add_zero _).symm

@[simp] theorem balance_nil : balance [] = 0 := rfl

@[simp] theorem balance_cons (effect : Effect) (rest : List Effect) :
    balance (effect :: rest) = effect.gain + balance rest := rfl

@[simp] theorem balance_append (first second : List Effect) :
    balance (first ++ second) = balance first + balance second := by
  rw [balance, List.map_append, List.sum_append, balance, balance]

theorem balance_of_writes {effects : List Effect} (h : ∀ effect ∈ effects, effect.IsWrite) :
    balance effects = 0 := by
  induction effects with
  | nil => rfl
  | cons effect rest ih =>
    rw [balance_cons, ih fun other hother => h other (List.mem_cons_of_mem effect hother)]
    have hwrite := h effect List.mem_cons_self
    cases effect with
    | store | overlay => rfl
    | mark | saveBitmap | charge | credit => exact hwrite.elim

@[simp] theorem balance_allocate (blocks : List UInt32) :
    balance (allocate blocks) = -blocks.length := by
  simp [allocate, gain]

@[simp] theorem balance_growth (blocks : List UInt32) :
    balance (growth blocks) = -blocks.length := by
  rw [growth]
  split
  · next hempty => simp [List.isEmpty_iff.mp hempty]
  · exact balance_allocate blocks

@[simp] theorem balance_deallocate (blocks : List UInt32) :
    balance (deallocate blocks) = blocks.length := by
  rw [deallocate]
  split
  · next hempty => simp [List.isEmpty_iff.mp hempty]
  · simp [gain]

@[simp] theorem balance_patches (inode : Inode) (offset : Nat) (bytes : List UInt8) :
    balance (inode.patches offset bytes) = 0 := by
  refine balance_of_writes fun effect heffect => ?_
  obtain ⟨index, -, rfl⟩ := List.mem_map.mp heffect
  trivial

end Effect

theorem Content.free_after {effects : List Effect} {c : Content}
    (h : Effect.AllAllowed effects c) :
    ((c.after effects).free : Int) = c.free + Effect.balance effects := by
  induction effects generalizing c with
  | nil => exact (Int.add_zero _).symm
  | cons effect rest ih =>
    rw [after_cons, ih h.2, Effect.free_change h.1, Effect.balance_cons, Int.add_assoc]

end BlockFS
