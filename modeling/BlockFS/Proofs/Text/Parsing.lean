import BlockFS.Proofs.Text.Spelling
import Mathlib.Data.List.Forall2

/-!
What is left of a text when it is parsed: the names between its slashes, each the longest beginning
that fits. A text that spells these names, with whatever slashes, stands for the same path, so that
the path says all that an operation can know of the text.
-/

set_option autoImplicit false
set_option relaxedAutoImplicit false

namespace BlockFS.Path

theorem pieces_eq_splitOn (text : List Char) : pieces text = text.splitOn '/' := by
  induction text with
  | nil => rw [pieces, List.splitOn_nil]
  | cons c rest ih =>
    obtain ⟨piece, others, hpieces⟩ := List.exists_cons_of_ne_nil (pieces_ne_nil rest)
    rw [List.splitOn, List.splitOnP_cons_eq_if_modifyHead, ← List.splitOn, ← ih, pieces, hpieces]
    by_cases hslash : c = '/' <;> simp [hslash]

/-- A text that spells names: one or more slashes between them, and any number of slashes before
the first and behind the last. -/
inductive Spells : List (List Char) → List Char → Prop
  | nil : Spells [] []
  | slash {names : List (List Char)} {text : List Char} :
      Spells names text → Spells names ('/' :: text)
  | last (name : List Char) : Spells [name] name
  | next {names : List (List Char)} {text : List Char} (name : List Char) :
      Spells names text → Spells (name :: names) (name ++ '/' :: text)

theorem Spells.mem {names : List (List Char)} {text : List Char} (h : Spells names text) {c : Char}
    (hc : c ∈ text) : c = '/' ∨ ∃ name ∈ names, c ∈ name := by
  induction h with
  | nil => simp at hc
  | slash _ ih => exact (List.mem_cons.mp hc).elim .inl ih
  | last name => exact .inr ⟨name, List.mem_singleton_self name, hc⟩
  | next name _ ih =>
    rcases List.mem_append.mp hc with hname | hrest
    · exact .inr ⟨name, List.mem_cons_self, hname⟩
    · rcases List.mem_cons.mp hrest with rfl | htext
      · exact .inl rfl
      · rcases ih htext with hslash | ⟨other, hother, hmem⟩
        · exact .inl hslash
        · exact .inr ⟨other, List.mem_cons_of_mem name hother, hmem⟩

theorem Spells.segments_eq {names : List (List Char)} {text : List Char} (h : Spells names text)
    (hnames : ∀ name ∈ names, name ≠ [] ∧ '/' ∉ name) : segments text = names := by
  induction h with
  | nil => rfl
  | slash _ ih =>
    have hslash := segments_append_slash []
    rw [← List.nil_append ('/' :: _), hslash, ih hnames]
    rfl
  | last name =>
    obtain ⟨hempty, hslash⟩ := hnames name (List.mem_singleton_self name)
    exact segments_of_no_slash hempty hslash
  | next name _ ih =>
    obtain ⟨hempty, hslash⟩ := hnames name List.mem_cons_self
    rw [segments_append_slash, segments_of_no_slash hempty hslash,
      ih fun other hother => hnames other (List.mem_cons_of_mem name hother)]
    rfl

theorem Spells.ofString_eq {names : List (List Char)} {text : String}
    (h : Spells names text.toList) (hnames : ∀ name ∈ names, Proper name)
    (hdepth : names.length ≤ maxPathDepth) : ofString text = .ok (names.map Utf8.encode) := by
  have hsegments := h.segments_eq fun name hname =>
    ⟨(hnames name hname).nonempty, (hnames name hname).slash⟩
  refine ofString_eq_ok_iff.mpr ⟨?_, ?_, by rwa [List.length_map]⟩
  · intro hmem
    rcases h.mem hmem with hslash | ⟨name, hname, hnul⟩
    · exact absurd hslash (by decide)
    · exact (hnames name hname).nul hnul
  · rw [hsegments]
    exact List.map_congr_left fun name hname => (component_of_fits (hnames name hname).fits).symm

/-- Bytes that stand for a name: they are there, spell whole characters, and hold no slash and no
NUL. -/
structure WellSpelled (name : Name) : Prop where
  nonempty : name ≠ []
  valid : name.toByteArray.IsValidUTF8
  slash : UInt8.ofNat '/'.toNat ∉ name
  nul : 0 ∉ name

theorem Proper.wellSpelled {name : List Char} (h : Proper name) :
    WellSpelled (Utf8.encode name) where
  nonempty := by
    obtain ⟨c, rest, rfl⟩ := List.exists_cons_of_ne_nil h.nonempty
    have hchar := c.utf8Size_pos
    rw [← String.length_utf8EncodeChar] at hchar
    rw [Utf8.encode_cons]
    exact List.append_ne_nil_of_left_ne_nil (List.ne_nil_of_length_pos hchar) _
  valid := .intro name rfl
  slash := Utf8.not_mem_encode (by decide) h.slash
  nul := Utf8.zero_not_mem_encode h.nul

/-- The segments of a text: what is between its slashes, empty pieces left out. -/
def betweenSlashes (text : String) : List (List Char) := (text.toList.splitOn '/').filter (· ≠ [])

theorem segments_eq_splitOn (text : String) : segments text.toList = betweenSlashes text := by
  rw [segments, pieces_eq_splitOn, betweenSlashes]
  apply List.filter_congr
  intro piece _
  cases piece <;> simp

theorem exists_names {segments : List (List Char)}
    (h : ∀ segment ∈ segments, segment ≠ [] ∧ '/' ∉ segment ∧ '\x00' ∉ segment) : ∃ names,
      List.Forall₂ LongestFit segments names ∧ (∀ name ∈ names, Proper name) ∧
        segments.map component = names.map Utf8.encode := by
  induction segments with
  | nil => exact ⟨[], .nil, by simp, rfl⟩
  | cons segment rest ih =>
    obtain ⟨hempty, hslash, hnul⟩ := h segment List.mem_cons_self
    obtain ⟨name, hfit, hcomponent⟩ := exists_longestFit segment
    obtain ⟨names, hfits, hproper, hcomponents⟩ := ih fun other hother =>
      h other (List.mem_cons_of_mem segment hother)
    refine ⟨name :: names, .cons hfit hfits, ?_, ?_⟩
    · intro other hother
      rcases List.mem_cons.mp hother with rfl | hmem
      · exact hfit.proper hempty hslash hnul
      · exact hproper other hmem
    · rw [List.map_cons, List.map_cons, hcomponent, hcomponents]

/-- A text that holds a NUL or too many segments is refused. Any other becomes the longest
beginnings of its segments that fit, and so does every spelling of these. -/
structure Canonicalises (text : String) : Prop where
  refused_iff : ofString text = .error .invalidArgument ↔
    '\x00' ∈ text.toList ∨ maxPathDepth < (betweenSlashes text).length
  parsed : '\x00' ∉ text.toList → (betweenSlashes text).length ≤ maxPathDepth → ∃ names,
    ofString text = .ok (names.map Utf8.encode) ∧
      List.Forall₂ LongestFit (betweenSlashes text) names ∧
      (∀ name ∈ names, WellSpelled (Utf8.encode name)) ∧
      ∀ spelling : String, Spells names spelling.toList →
        ofString spelling = .ok (names.map Utf8.encode)

/-- Parsing leaves of a text its canonical form. -/
theorem canonicalises (text : String) : Canonicalises text where
  refused_iff := by
    rw [ofString, segments_eq_splitOn]
    split <;> simp_all
  parsed hnul hdepth := by
    have hsegments : ∀ segment ∈ betweenSlashes text,
        segment ≠ [] ∧ '/' ∉ segment ∧ '\x00' ∉ segment := by
      intro segment hsegment
      rw [← segments_eq_splitOn] at hsegment
      obtain ⟨hempty, hchars⟩ := of_mem_segments hsegment
      exact ⟨hempty, fun hc => (hchars _ hc).2 rfl, fun hc => hnul (hchars _ hc).1⟩
    obtain ⟨names, hnames, hproper, hcomponents⟩ := exists_names hsegments
    have hlength : names.length ≤ maxPathDepth := hnames.length_eq ▸ hdepth
    refine ⟨names, ofString_eq_ok_iff.mpr ⟨hnul, ?_, by rwa [List.length_map]⟩, hnames,
      fun name hname => (hproper name hname).wellSpelled,
      fun spelling hspells => hspells.ofString_eq hproper hlength⟩
    rw [segments_eq_splitOn, hcomponents]

end BlockFS.Path
