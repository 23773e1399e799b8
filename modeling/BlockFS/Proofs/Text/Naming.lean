import BlockFS.Proofs.Codec.Directory
import BlockFS.Proofs.Names

/-!
What a slot is called. A slot shows the canonical form of the name it was given last and is found
under every name of that form, whatever the bytes of these names, and writing and reading the slot
leaves it so.
-/

set_option autoImplicit false
set_option relaxedAutoImplicit false

namespace BlockFS.Slot

/-- A slot shows the canonical form of a name and is found under the names of that form alone. -/
structure AnswersTo (s : Slot) (name : Name) : Prop where
  shows : s.storedName = name.canonical
  isNamed_iff : ∀ other, s.isNamed other = true ↔ name.canonical = other.canonical

theorem answersTo_of_field {s : Slot} {name : Name} (h : s.name = name.toField) :
    s.AnswersTo name where
  shows := storedName_eq_canonical h
  isNamed_iff other := by rw [Slot.isNamed_iff, storedName_eq_canonical h]

theorem AnswersTo.self {s : Slot} {name : Name} (h : s.AnswersTo name) : s.isNamed name = true :=
  (h.isNamed_iff name).mpr rfl

/-- Slots that are filled or renamed answer to the name they were given, before and after they are
written and read, and to be named alike is an equivalence. -/
structure NamesCanonically (inode : UInt32) : Prop where
  filled : ∀ name, (entry inode name).AnswersTo name
  renamed : ∀ (s : Slot) name, (s.rename name).AnswersTo name
  kept : inode.toNat < slotLimit → ∀ name, decode (entry inode name).encode = entry inode name
  filledReread : ∀ name, (decode (entry inode name).encode).AnswersTo name
  renamedReread : ∀ (s : Slot) name, (decode (s.rename name).encode).AnswersTo name
  equivalence : Equivalence fun name other => (entry inode name).isNamed other = true
  filledNamed : ∀ name, (entry inode name).isNamed name = true
  renamedNamed : ∀ (s : Slot) name, (s.rename name).isNamed name = true

/-- The names of slots count in canonical form only. -/
theorem names_canonically (inode : UInt32) : NamesCanonically inode where
  filled _ := answersTo_of_field rfl
  renamed _ _ := answersTo_of_field rfl
  kept hinode _ := decode_encode hinode
  filledReread _ := answersTo_of_field (name_decode_encode _)
  renamedReread _ _ := answersTo_of_field (name_decode_encode _)
  equivalence := by
    have hiff : ∀ name other, (entry inode name).isNamed other = true ↔
        name.canonical = other.canonical := fun _ => (answersTo_of_field rfl).isNamed_iff
    simp only [hiff]
    exact ⟨fun _ => rfl, fun h => h.symm, fun h h' => h.trans h'⟩
  filledNamed _ := (answersTo_of_field rfl).self
  renamedNamed _ _ := (answersTo_of_field rfl).self

end BlockFS.Slot
