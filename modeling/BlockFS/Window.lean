import BlockFS.Error

/-!
Checked access to fixed-length vectors: single elements and windows of consecutive positions. An
access to a record, a block or the bitmap whose position comes from stored data or from a caller
goes through here and fails with `outOfBounds` when it reaches past the end. Names are lists and are
cut by total functions; `Name.checkedTruncate_eq` and `Name.checkedField_eq` say that these stay
inside the name and inside its field.
-/

set_option autoImplicit false
set_option relaxedAutoImplicit false

namespace BlockFS.Window

variable {α : Type} {n : Nat}

def get (v : Vector α n) (i : Nat) : Except Failure α :=
  if h : i < n then .ok v[i] else .error .outOfBounds

def set (v : Vector α n) (i : Nat) (a : α) : Except Failure (Vector α n) :=
  if h : i < n then .ok (v.set i a) else .error .outOfBounds

/-- The elements at the positions from `lo` up to but not including `hi`. -/
def read (v : Vector α n) (lo hi : Nat) : Except Failure (List α) :=
  if lo ≤ hi ∧ hi ≤ n then .ok (v.extract lo hi).toList else .error .outOfBounds

/-- The vector with the elements from position `lo` on replaced by those of a list. -/
def write (v : Vector α n) (lo : Nat) (xs : List α) : Except Failure (Vector α n) :=
  if h : lo + xs.length ≤ n then
    .ok ⟨(v.toList.take lo ++ (xs ++ v.toList.drop (lo + xs.length))).toArray, by simp; omega⟩
  else .error .outOfBounds

theorem read_eq_ok {v : Vector α n} {lo hi : Nat} (hlo : lo ≤ hi) (hhi : hi ≤ n) :
    read v lo hi = .ok ((v.toList.take hi).drop lo) := by
  simp [read, hlo, hhi, Vector.toList, List.drop_take]

theorem toList_write {v w : Vector α n} {lo : Nat} {xs : List α} (h : write v lo xs = .ok w) :
    w.toList = v.toList.take lo ++ (xs ++ v.toList.drop (lo + xs.length)) := by
  unfold write at h
  split at h
  · cases h
    rfl
  · contradiction

end BlockFS.Window
