import BlockFS.Window
import Mathlib.Tactic.ByContra

/-!
What a window that is written holds afterwards, position by position.
-/

set_option autoImplicit false
set_option relaxedAutoImplicit false

namespace BlockFS.Window

variable {α : Type} {n : Nat}

theorem write_eq_ok {v : Vector α n} {lo : Nat} {xs : List α} (h : lo + xs.length ≤ n) :
    ∃ w, write v lo xs = .ok w :=
  ⟨_, dif_pos h⟩

private theorem getElem?_toList (v : Vector α n) (k : Fin n) :
    v.toList[k.val]? = some (v.get k) := by
  rw [List.getElem?_eq_getElem (by rw [Vector.length_toList]; exact k.isLt), Vector.getElem_toList]
  rfl

theorem get_write {v w : Vector α n} {lo : Nat} {xs : List α} (h : write v lo xs = .ok w)
    (k : Fin n) : some (w.get k) =
      if lo ≤ k.val ∧ k.val < lo + xs.length then xs[k.val - lo]? else some (v.get k) := by
  have hfit : lo + xs.length ≤ n := by
    by_contra hlong
    rw [write, dif_neg hlong] at h
    cases h
  have hfront : (v.toList.take lo).length = lo := by
    rw [List.length_take, Vector.length_toList]
    omega
  have hk := k.isLt
  rw [← getElem?_toList w, toList_write h]
  by_cases hlo : lo ≤ k.val
  · rw [List.getElem?_append_right (by omega), hfront]
    by_cases hhi : k.val < lo + xs.length
    · rw [if_pos ⟨hlo, hhi⟩, List.getElem?_append_left (by omega)]
    · rw [if_neg (by omega), List.getElem?_append_right (by omega), List.getElem?_drop,
        ← getElem?_toList v]
      congr 1
      omega
  · rw [if_neg (by omega), List.getElem?_append_left (by omega), List.getElem?_take,
      if_pos (by omega), getElem?_toList v]

end BlockFS.Window
