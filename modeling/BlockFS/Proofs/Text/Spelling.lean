import BlockFS.Proofs.Text.Utf8

/-!
How paths are spelled. A slash separates the path before it from the one behind it, so a path is
continued by a slash and a name, and a name that fits is a component as it is. Of one that does not
fit the longest beginning counts that does.
-/

set_option autoImplicit false
set_option relaxedAutoImplicit false

namespace BlockFS.Path

/-! ### Components -/

theorem component_of_fits {text : List Char} (h : (Utf8.encode text).length ≤ maxNameLength) :
    component text = Utf8.encode text := Name.truncate_of_length_le h

/-- The longest beginning of a text whose bytes fit into a name. -/
structure LongestFit (text front : List Char) : Prop where
  beginning : front <+: text
  fits : (Utf8.encode front).length ≤ maxNameLength
  longest : ∀ {other}, other <+: text → (Utf8.encode other).length ≤ maxNameLength →
    other <+: front

theorem exists_longestFit (text : List Char) :
    ∃ front, LongestFit text front ∧ component text = Utf8.encode front := by
  obtain ⟨front, back, rfl, htruncate, hlongest⟩ := Name.truncate_encode text
  refine ⟨front, ⟨List.prefix_append front back, ?_, ?_⟩, htruncate⟩
  · rw [← htruncate]
    exact Name.length_truncate_le _
  · intro other hother hfits
    rcases List.prefix_or_prefix_of_prefix hother (List.prefix_append front back) with h | h
    · exact h
    · obtain ⟨more, rfl⟩ := h
      cases more with
      | nil => simp
      | cons c more =>
        -- One character more does not fit.
        obtain ⟨rest, hrest⟩ := hother
        rw [List.append_assoc, List.append_cancel_left_eq, List.cons_append] at hrest
        have hlong := hlongest c _ hrest.symm
        simp only [Utf8.encode_append, Utf8.encode_cons, Utf8.encode_nil, List.length_append,
          List.length_nil] at hlong hfits
        omega

/-- Text that stands in a path as it is: it is there, it fits, and it holds no slash and no NUL. -/
structure Proper (text : List Char) : Prop where
  nonempty : text ≠ []
  slash : '/' ∉ text
  nul : '\x00' ∉ text
  fits : (Utf8.encode text).length ≤ maxNameLength

theorem LongestFit.proper {text front : List Char} (h : LongestFit text front) (htext : text ≠ [])
    (hslash : '/' ∉ text) (hnul : '\x00' ∉ text) : Proper front where
  nonempty := by
    -- One character alone always fits.
    rintro rfl
    obtain ⟨c, rest, rfl⟩ := List.exists_cons_of_ne_nil htext
    have hchar := Utf8.length_encodeChar_le c
    have hlimit : 4 ≤ maxNameLength := by decide
    have hshort : (Utf8.encode [c]).length ≤ maxNameLength := by
      simpa [Utf8.encode_cons, Utf8.encode_nil] using Nat.le_trans hchar hlimit
    simpa using h.longest (List.prefix_append [c] rest) hshort
  slash hc := hslash (h.beginning.mem hc)
  nul hc := hnul (h.beginning.mem hc)
  fits := h.fits

theorem IsComponent.exists_text {name : Name} (h : IsComponent name) : ∃ text : List Char,
    text ≠ [] ∧ '/' ∉ text ∧ '\x00' ∉ text ∧ name = Utf8.encode text ∧
      (Utf8.encode text).length ≤ maxNameLength := by
  obtain ⟨segment, hempty, hslash, hnul, rfl⟩ := h
  obtain ⟨front, hfront, hcomponent⟩ := exists_longestFit segment
  have hproper := hfront.proper hempty hslash hnul
  exact ⟨front, hproper.nonempty, hproper.slash, hproper.nul, hcomponent, hproper.fits⟩

theorem IsComponent.encode_decode {name : Name} (h : IsComponent name) :
    Utf8.encode (Utf8.decode name) = name := by
  obtain ⟨text, -, -, -, rfl, -⟩ := h.exists_text
  rw [Utf8.decode_encode]

/-! ### Slashes -/

theorem pieces_ne_nil (text : List Char) : pieces text ≠ [] := by
  cases text with
  | nil => exact List.cons_ne_nil _ _
  | cons c rest =>
    rw [pieces]
    split
    · exact List.cons_ne_nil _ _
    · split <;> exact List.cons_ne_nil _ _

theorem pieces_append_slash (front back : List Char) :
    pieces (front ++ '/' :: back) = pieces front ++ pieces back := by
  induction front with
  | nil => rfl
  | cons c rest ih =>
    rw [List.cons_append, pieces, pieces, ih]
    by_cases hslash : c = '/'
    · rw [if_pos hslash, if_pos hslash, List.cons_append]
    · rw [if_neg hslash, if_neg hslash]
      obtain ⟨piece, others, hpieces⟩ := List.exists_cons_of_ne_nil (pieces_ne_nil rest)
      rw [hpieces]
      rfl

theorem pieces_of_no_slash {text : List Char} (h : '/' ∉ text) : pieces text = [text] := by
  induction text with
  | nil => rfl
  | cons c rest ih =>
    have hc : ¬ c = '/' := by
      rintro rfl
      exact h List.mem_cons_self
    rw [pieces, if_neg hc, ih fun hmem => h (List.mem_cons_of_mem c hmem)]

theorem segments_append_slash (front back : List Char) :
    segments (front ++ '/' :: back) = segments front ++ segments back := by
  rw [segments, pieces_append_slash, List.filter_append]
  rfl

theorem segments_of_no_slash {text : List Char} (hempty : text ≠ []) (h : '/' ∉ text) :
    segments text = [text] := by
  rw [segments, pieces_of_no_slash h]
  exact List.filter_eq_self.mpr (by simpa using hempty)

/-! ### Paths and one more name -/

theorem ofString_eq_ok_iff {text : String} {path : Path} : ofString text = .ok path ↔
    '\x00' ∉ text.toList ∧ path = (segments text.toList).map component ∧
      path.length ≤ maxPathDepth := by
  rw [ofString]
  split
  · rename_i hillegal
    constructor
    · intro h
      cases h
    rintro ⟨hnul, rfl, hlength⟩
    rw [List.length_map] at hlength
    rcases hillegal with hmem | hlong
    · exact absurd hmem hnul
    · exact absurd hlength (Nat.not_le.mpr hlong)
  · rename_i hlegal
    constructor
    · intro h
      cases h
      refine ⟨fun hmem => hlegal (.inl hmem), rfl, ?_⟩
      rw [List.length_map]
      exact Nat.le_of_not_lt fun hlong => hlegal (.inr hlong)
    · rintro ⟨-, rfl, -⟩
      rfl

/-- How a path is continued depends on its length alone. -/
theorem ofString_continued {text : String} {path : Path} (htext : ofString text = .ok path)
    (rest : String) : ofString (text ++ "/" ++ rest) =
      if '\x00' ∈ rest.toList ∨ maxPathDepth < path.length + (segments rest.toList).length then
        .error .invalidArgument
      else .ok (path ++ (segments rest.toList).map component) := by
  obtain ⟨hlegal, rfl, -⟩ := ofString_eq_ok_iff.mp htext
  have hwhole : (text ++ "/" ++ rest).toList = text.toList ++ '/' :: rest.toList := by
    rw [String.toList_append, String.toList_append, List.append_assoc]
    rfl
  have hnul : '\x00' ∈ text.toList ++ '/' :: rest.toList ↔ '\x00' ∈ rest.toList := by
    simp [hlegal]
  rw [ofString, hwhole, segments_append_slash, List.length_append, List.length_map,
    List.map_append]
  simp only [hnul]

private theorem segments_name {name : String} (hempty : name ≠ "") (hslash : '/' ∉ name.toList) :
    segments name.toList = [name.toList] :=
  segments_of_no_slash (fun h => hempty (String.toList_eq_nil_iff.mp h)) hslash

theorem ofString_child {text name : String} {path : Path} (htext : ofString text = .ok path)
    (hempty : name ≠ "") (hslash : '/' ∉ name.toList) (hnul : '\x00' ∉ name.toList)
    (hlength : path.length < maxPathDepth) :
    ofString (text ++ "/" ++ name) = .ok (path ++ [component name.toList]) := by
  rw [ofString_continued htext, segments_name hempty hslash, if_neg]
  · rfl
  · rintro (hmem | hlong)
    · exact hnul hmem
    · exact absurd hlength (Nat.not_lt.mpr (Nat.le_of_lt_succ hlong))

theorem of_ofString_child {text name : String} {path whole : Path}
    (htext : ofString text = .ok path) (hempty : name ≠ "") (hslash : '/' ∉ name.toList)
    (hwhole : ofString (text ++ "/" ++ name) = .ok whole) :
    whole = path ++ [component name.toList] := by
  rw [ofString_continued htext, segments_name hempty hslash] at hwhole
  split at hwhole
  · cases hwhole
  · exact (Except.ok.inj hwhole).symm

end BlockFS.Path
