import BlockFS.Path
import BlockFS.Record.Directory

/-!
Names as they are stored and as they are asked for. The names of a path are canonical: they hold no
NUL and are short enough, so a slot that is given one stores exactly that name. Where a name is cut
and where it is stored lie inside the name and inside its field.
-/

set_option autoImplicit false
set_option relaxedAutoImplicit false

namespace BlockFS

namespace Name

theorem truncate_of_length_le {name : Name} (h : name.length ≤ maxNameLength) :
    truncate name = name := if_pos h

theorem truncate_truncate (name : Name) : truncate (truncate name) = truncate name :=
  truncate_of_length_le (length_truncate_le name)

theorem mem_of_mem_truncate {name : Name} {byte : UInt8} (h : byte ∈ truncate name) :
    byte ∈ name := by
  unfold truncate at h
  split at h
  · exact h
  · exact List.mem_of_mem_take h

theorem beforeNul_append {name : Name} (h : 0 ∉ name) (rest : Name) :
    beforeNul (name ++ rest) = name ++ beforeNul rest := by
  apply List.takeWhile_append_of_pos
  intro byte hbyte
  have hne : byte ≠ 0 := fun he => h (he ▸ hbyte)
  simpa using hne

theorem beforeNul_of_not_mem {name : Name} (h : 0 ∉ name) : beforeNul name = name := by
  have happend := beforeNul_append h []
  simpa [beforeNul] using happend

theorem canonical_of_not_mem {name : Name} (h : 0 ∉ name) : canonical name = truncate name := by
  rw [canonical, beforeNul_of_not_mem h]

theorem toList_toField (name : Name) :
    name.toField.toList = truncate name ++
      List.replicate (nameField - (truncate name).length) 0 := by
  have hle := length_truncate_le name
  have hlimit : maxNameLength < nameField := by decide
  rw [toField, Vector.toList, List.toList_toArray, List.take_append,
    List.take_of_length_le (by omega), List.take_replicate, Nat.min_eq_left (Nat.sub_le _ _)]

theorem exists_split (name : Name) : ∃ short rest, name = short ++ rest ∧ 0 ∉ short ∧
    beforeNul rest = [] := by
  induction name with
  | nil => exact ⟨[], [], rfl, List.not_mem_nil, rfl⟩
  | cons byte tail ih =>
    by_cases hbyte : byte = 0
    · exact ⟨[], byte :: tail, rfl, List.not_mem_nil, by simp [beforeNul, hbyte]⟩
    · obtain ⟨short, rest, rfl, hlegal, hrest⟩ := ih
      exact ⟨byte :: short, rest, rfl, by simp [hlegal, Ne.symm hbyte], hrest⟩

theorem beforeNul_split {short rest : Name} (hlegal : 0 ∉ short) (hrest : beforeNul rest = []) :
    beforeNul (short ++ rest) = short := by
  rw [beforeNul_append hlegal, hrest, List.append_nil]

theorem eq_nil_or_of_beforeNul_eq_nil {rest : Name} (h : beforeNul rest = []) :
    rest = [] ∨ ∃ tail, rest = 0 :: tail := by
  cases rest with
  | nil => exact .inl rfl
  | cons byte tail =>
    by_cases hbyte : byte = 0
    · exact .inr ⟨tail, by rw [hbyte]⟩
    · simp [beforeNul, hbyte] at h

theorem beforeNul_take_eq_nil {rest : Name} (h : beforeNul rest = []) (count : Nat) :
    beforeNul (rest.take count) = [] := by
  rcases eq_nil_or_of_beforeNul_eq_nil h with rfl | ⟨tail, rfl⟩
  · simp [beforeNul]
  · cases count <;> simp [beforeNul]

theorem beforeNul_append_replicate {rest : Name} (h : beforeNul rest = []) (count : Nat) :
    beforeNul (rest ++ List.replicate count 0) = [] := by
  rcases eq_nil_or_of_beforeNul_eq_nil h with rfl | ⟨tail, rfl⟩
  · cases count <;> simp [beforeNul, List.replicate_succ]
  · simp [beforeNul]

theorem not_isContinuation_of_beforeNul_eq_nil {rest : Name} (h : beforeNul rest = []) :
    rest[0]?.any isContinuation = false := by
  rcases eq_nil_or_of_beforeNul_eq_nil h with rfl | ⟨tail, rfl⟩
  · rfl
  · exact (by decide : isContinuation 0 = false)

theorem le_boundary {name : Name} {start position : Nat}
    (hstart : name[start]?.any isContinuation = false) (hle : start ≤ position) :
    start ≤ boundary name position := by
  induction position with
  | zero => simpa [boundary] using hle
  | succ position ih =>
    rcases Nat.lt_or_eq_of_le hle with hlt | rfl
    · rw [boundary]
      split
      · exact ih (Nat.le_of_lt_succ hlt)
      · exact hle
    · simp [boundary, hstart]

theorem boundary_append {name : Name} {position : Nat} (h : position < name.length) (rest : Name) :
    boundary (name ++ rest) position = boundary name position := by
  induction position with
  | zero => rfl
  | succ position ih =>
    have hbefore := ih (by omega)
    simp only [boundary, List.getElem?_append_left h, hbefore]

/-- A name may be cut to length first and at its NUL then, or the other way around. -/
theorem beforeNul_truncate (name : Name) : beforeNul (truncate name) = canonical name := by
  obtain ⟨short, rest, rfl, hlegal, hrest⟩ := exists_split name
  have hlength : (short ++ rest).length = short.length + rest.length := List.length_append
  rw [canonical, beforeNul_split hlegal hrest]
  by_cases hshort : short.length ≤ maxNameLength
  · rw [truncate_of_length_le hshort, truncate]
    split
    · exact beforeNul_split hlegal hrest
    · -- The NUL continues no character, so the cut is not in front of it.
      have hcut : short.length ≤ boundary (short ++ rest) maxNameLength := by
        apply le_boundary _ hshort
        rw [List.getElem?_append_right (Nat.le_refl _), Nat.sub_self]
        exact not_isContinuation_of_beforeNul_eq_nil hrest
      rw [List.take_append, List.take_of_length_le hcut]
      exact beforeNul_split hlegal (beforeNul_take_eq_nil hrest _)
  · -- The NUL is behind the cut.
    have hcut := boundary_le short maxNameLength
    rw [truncate, truncate, if_neg (by omega), if_neg hshort,
      boundary_append (Nat.lt_of_not_le hshort), List.take_append_of_le_length (by omega)]
    exact beforeNul_of_not_mem fun hmem => hlegal (List.mem_of_mem_take hmem)

theorem beforeNul_toField (name : Name) : beforeNul name.toField.toList = canonical name := by
  rw [toList_toField, ← beforeNul_truncate]
  obtain ⟨short, rest, hname, hlegal, hrest⟩ := exists_split (truncate name)
  rw [hname, beforeNul_split hlegal hrest, List.append_assoc]
  exact beforeNul_split hlegal (beforeNul_append_replicate hrest _)

/-! ### Inside the name and its field -/

def byteAt (name : Name) (position : Nat) : Except Failure UInt8 :=
  if h : position < name.length then .ok name[position] else .error .outOfBounds

/-- `boundary` with every byte taken from a position of the name. -/
def checkedBoundary (name : Name) : Nat → Except Failure Nat
  | 0 => .ok 0
  | position + 1 => do
    let byte ← name.byteAt (position + 1)
    if isContinuation byte then checkedBoundary name position else return position + 1

/-- `truncate` with a cut that is not behind the end of the name. -/
def checkedTruncate (name : Name) : Except Failure Name :=
  if name.length ≤ maxNameLength then .ok name
  else do
    let stop ← name.checkedBoundary maxNameLength
    if stop ≤ name.length then return name.take stop else .error .outOfBounds

/-- `toField` as a window of an empty field. -/
def checkedField (name : Name) : Except Failure (Vector UInt8 nameField) := do
  let short ← name.checkedTruncate
  Window.write (Vector.replicate nameField 0) 0 short

theorem checkedBoundary_eq {name : Name} {position : Nat} (h : position < name.length) :
    name.checkedBoundary position = .ok (boundary name position) := by
  induction position with
  | zero => rfl
  | succ position ih =>
    have hbyte : name.byteAt (position + 1) = .ok name[position + 1] := dif_pos h
    have hbelow := ih (Nat.lt_of_succ_lt h)
    simp only [checkedBoundary, boundary, hbyte, hbelow, List.getElem?_eq_getElem h,
      Option.any_some, bind, Except.bind, pure, Except.pure]
    split <;> rfl

theorem checkedTruncate_eq (name : Name) : name.checkedTruncate = .ok (truncate name) := by
  rw [checkedTruncate, truncate]
  split
  · rfl
  · rename_i hlong
    have hinside : maxNameLength < name.length := Nat.lt_of_not_le hlong
    have hcut : boundary name maxNameLength ≤ name.length :=
      Nat.le_trans (boundary_le name maxNameLength) (Nat.le_of_lt hinside)
    rw [checkedBoundary_eq hinside]
    exact if_pos hcut

theorem checkedField_eq (name : Name) : name.checkedField = .ok name.toField := by
  have hshort := length_truncate_le name
  have hfits : 0 + (truncate name).length ≤ nameField := by
    have hlimit : maxNameLength < nameField := by decide
    omega
  rw [checkedField, checkedTruncate_eq]
  refine (dif_pos hfits).trans (congrArg Except.ok (Vector.toList_inj.mp ?_))
  rw [toList_toField]
  simp [Vector.toList, List.drop_replicate]

end Name

namespace Slot

theorem storedName_eq_canonical {s : Slot} {name : Name} (h : s.name = name.toField) :
    s.storedName = name.canonical := by
  rw [storedName, h, Name.beforeNul_toField]

theorem storedName_of_toField {s : Slot} {name : Name} (h : s.name = name.toField)
    (hnul : 0 ∉ name) : s.storedName = name.truncate := by
  rw [storedName_eq_canonical h, Name.canonical_of_not_mem hnul]

theorem isNamed_iff (s : Slot) (name : Name) :
    s.isNamed name = true ↔ s.storedName = name.canonical := beq_iff_eq

end Slot

namespace Utf8

theorem eq_of_mem_encodeChar {c : Char} {byte : UInt8} (hbyte : byte.toNat < 128)
    (h : byte ∈ String.utf8EncodeChar c) : c = Char.ofNat byte.toNat := by
  have hchar : Char.ofNat c.val.toNat = c := Char.ofNat_toNat c
  have hhigh : ∀ n : Nat, 128 ≤ n % 256 → byte ≠ UInt8.ofNat n := by
    rintro n hn rfl
    rw [UInt8.toNat_ofNat'] at hbyte
    omega
  unfold String.utf8EncodeChar at h
  dsimp only at h
  generalize c.val.toNat = n at h hchar
  split at h
  · obtain rfl := List.mem_singleton.mp h
    rw [UInt8.toNat_ofNat', Nat.mod_eq_of_lt (by omega), hchar]
  · split at h
    · simp only [List.mem_cons, List.not_mem_nil, or_false] at h
      rcases h with he | he <;> exact absurd he (hhigh _ (by omega))
    · split at h <;> simp only [List.mem_cons, List.not_mem_nil, or_false] at h
      · rcases h with he | he | he <;> exact absurd he (hhigh _ (by omega))
      · rcases h with he | he | he | he <;> exact absurd he (hhigh _ (by omega))

theorem not_mem_encode {text : List Char} {byte : UInt8} (hbyte : byte.toNat < 128)
    (h : Char.ofNat byte.toNat ∉ text) : byte ∉ encode text := by
  intro hmem
  obtain ⟨c, hc, hencoded⟩ := List.mem_flatMap.mp hmem
  exact h (eq_of_mem_encodeChar hbyte hencoded ▸ hc)

theorem zero_not_mem_encode {text : List Char} (h : '\x00' ∉ text) : 0 ∉ encode text :=
  not_mem_encode (by decide) h

end Utf8

namespace Path

def IsComponent (name : Name) : Prop :=
  ∃ segment : List Char, segment ≠ [] ∧ '/' ∉ segment ∧ '\x00' ∉ segment ∧
    name = component segment

theorem IsComponent.zero_not_mem {name : Name} (h : IsComponent name) : 0 ∉ name := by
  obtain ⟨segment, -, -, hnul, rfl⟩ := h
  exact fun hmem => Utf8.zero_not_mem_encode hnul (Name.mem_of_mem_truncate hmem)

theorem IsComponent.truncate_eq {name : Name} (h : IsComponent name) : name.truncate = name := by
  obtain ⟨segment, -, -, -, rfl⟩ := h
  exact Name.truncate_truncate _

theorem IsComponent.canonical_eq {name : Name} (h : IsComponent name) : name.canonical = name := by
  rw [Name.canonical_of_not_mem h.zero_not_mem, h.truncate_eq]

private theorem mem_piece {text piece : List Char} (h : piece ∈ pieces text) {c : Char}
    (hc : c ∈ piece) : c ∈ text ∧ c ≠ '/' := by
  induction text generalizing piece with
  | nil => simp_all [pieces]
  | cons d rest ih =>
    simp only [pieces] at h
    split at h
    · rcases List.mem_cons.mp h with rfl | hrest
      · simp at hc
      · exact ⟨List.mem_cons_of_mem d (ih hrest hc).1, (ih hrest hc).2⟩
    · rename_i hslash
      split at h
      · rcases List.mem_singleton.mp h with rfl
        rcases List.mem_singleton.mp hc with rfl
        exact ⟨List.mem_cons_self, hslash⟩
      · rename_i first others hpieces
        rcases List.mem_cons.mp h with rfl | hrest
        · rcases List.mem_cons.mp hc with rfl | hfirst
          · exact ⟨List.mem_cons_self, hslash⟩
          · have := ih (hpieces ▸ List.mem_cons_self) hfirst
            exact ⟨List.mem_cons_of_mem d this.1, this.2⟩
        · have := ih (hpieces ▸ List.mem_cons_of_mem first hrest) hc
          exact ⟨List.mem_cons_of_mem d this.1, this.2⟩

theorem of_mem_segments {text segment : List Char} (h : segment ∈ segments text) :
    segment ≠ [] ∧ ∀ c ∈ segment, c ∈ text ∧ c ≠ '/' := by
  obtain ⟨hpiece, hempty⟩ := List.mem_filter.mp h
  exact ⟨by simpa using hempty, fun c hc => mem_piece hpiece hc⟩

theorem isComponent_of_ofString {text : String} {path : Path} (h : ofString text = .ok path)
    {name : Name} (hname : name ∈ path) : IsComponent name := by
  unfold ofString at h
  split at h
  · contradiction
  · rename_i hlegal
    cases h
    obtain ⟨segment, hsegment, rfl⟩ := List.mem_map.mp hname
    obtain ⟨hempty, hchars⟩ := of_mem_segments hsegment
    exact ⟨segment, hempty, fun hc => (hchars _ hc).2 rfl,
      fun hc => hlegal (.inl (hchars _ hc).1), rfl⟩

theorem length_le_of_ofString {text : String} {path : Path} (h : ofString text = .ok path) :
    path.length ≤ maxPathDepth := by
  unfold ofString at h
  split at h
  · contradiction
  · rename_i hlegal
    cases h
    rw [List.length_map]
    exact Nat.le_of_not_lt fun hlong => hlegal (.inr hlong)

end Path

end BlockFS
