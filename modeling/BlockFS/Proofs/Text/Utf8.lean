import BlockFS.Proofs.Names

/-!
Texts and their bytes. Decoding the bytes of a text shows the text, so nothing is replaced. A name
is cut where a character begins: what is left of the bytes of a text are the bytes of its longest
prefix that fits.
-/

set_option autoImplicit false
set_option relaxedAutoImplicit false

namespace BlockFS

namespace Utf8

theorem encode_nil : encode [] = [] := rfl

theorem encode_append (front back : List Char) :
    encode (front ++ back) = encode front ++ encode back := List.flatMap_append

theorem encode_cons (c : Char) (rest : List Char) :
    encode (c :: rest) = String.utf8EncodeChar c ++ encode rest := List.flatMap_cons

/-! ### Decoding -/

private theorem begin_one {byte : UInt8} (h : byte.toNat < 0x80) :
    begin byte = ([Char.ofNat byte.toNat], none) := if_pos h

private theorem begin_two {byte : UInt8} (hlow : 0xC2 ≤ byte.toNat) (hhigh : byte.toNat < 0xE0) :
    begin byte = ([], some ⟨byte.toNat - 0xC0, 1, 0x80, 0xBF⟩) := by
  unfold begin
  dsimp only
  rw [if_neg (by omega), if_neg (by omega), if_pos hhigh]

private theorem begin_three {byte : UInt8} (hlow : 0xE0 ≤ byte.toNat) (hhigh : byte.toNat < 0xF0) :
    begin byte = ([], some ⟨byte.toNat - 0xE0, 2, if byte.toNat = 0xE0 then 0xA0 else 0x80,
      if byte.toNat = 0xED then 0x9F else 0xBF⟩) := by
  unfold begin
  dsimp only
  rw [if_neg (by omega), if_neg (by omega), if_neg (by omega)]
  by_cases hfirst : byte.toNat = 0xE0
  · rw [if_pos hfirst, if_pos hfirst, if_neg (by omega), hfirst]
  · rw [if_neg hfirst, if_neg hfirst]
    by_cases hlast : byte.toNat = 0xED
    · rw [if_pos hlast, if_pos hlast]
    · rw [if_neg hlast, if_neg hlast, if_pos hhigh]

private theorem begin_four {byte : UInt8} (hlow : 0xF0 ≤ byte.toNat) (hhigh : byte.toNat < 0xF5) :
    begin byte = ([], some ⟨byte.toNat - 0xF0, 3, if byte.toNat = 0xF0 then 0x90 else 0x80,
      if byte.toNat = 0xF4 then 0x8F else 0xBF⟩) := by
  unfold begin
  dsimp only
  rw [if_neg (by omega), if_neg (by omega), if_neg (by omega), if_neg (by omega),
    if_neg (by omega), if_neg (by omega)]
  by_cases hfirst : byte.toNat = 0xF0
  · rw [if_pos hfirst, if_pos hfirst, if_neg (by omega), hfirst]
  · rw [if_neg hfirst, if_neg hfirst]
    by_cases hlast : byte.toNat = 0xF4
    · rw [if_neg (by omega), if_pos hlast, if_pos hlast, hlast]
    · rw [if_pos (by omega), if_neg hlast]

private theorem decodeFrom_inside {p : Partial} {byte : UInt8} (hlow : p.low.toNat ≤ byte.toNat)
    (hhigh : byte.toNat ≤ p.high.toNat) (rest : List UInt8) :
    decodeFrom (some p) (byte :: rest) =
      if p.missing ≤ 1 then
        Char.ofNat (p.value * 64 + byte.toNat % 64) :: decodeFrom none rest
      else
        decodeFrom (some ⟨p.value * 64 + byte.toNat % 64, p.missing - 1, 0x80, 0xBF⟩) rest := by
  have hinside : p.low ≤ byte ∧ byte ≤ p.high := ⟨hlow, hhigh⟩
  simp only [decodeFrom, advance, if_pos hinside]
  split <;> rfl

private theorem decodeFrom_begin {byte : UInt8} {state : Option Partial} {shown : List Char}
    (h : begin byte = (shown, state)) (rest : List UInt8) :
    decodeFrom none (byte :: rest) = shown ++ decodeFrom state rest := by
  simp only [decodeFrom, advance, h]

private theorem toNat_byte {n : Nat} (h : n < 256) : (UInt8.ofNat n).toNat = n := by
  rw [UInt8.toNat_ofNat', Nat.mod_eq_of_lt h]

private theorem decodeFrom_encodeChar (c : Char) (rest : List UInt8) :
    decodeFrom none (String.utf8EncodeChar c ++ rest) = c :: decodeFrom none rest := by
  have hvalid : c.val.toNat < 0xD800 ∨ 0xDFFF < c.val.toNat ∧ c.val.toNat < 0x110000 := c.valid
  have hchar : Char.ofNat c.val.toNat = c := Char.ofNat_toNat c
  unfold String.utf8EncodeChar
  dsimp only
  generalize c.val.toNat = n at hvalid hchar
  split
  · have hbyte := toNat_byte (n := n) (by omega)
    rw [List.singleton_append, decodeFrom_begin (begin_one (by omega)), hbyte, hchar]
    rfl
  split
  · have hfirst := toNat_byte (n := n / 64 % 32 + 192) (by omega)
    have hsecond := toNat_byte (n := n % 64 + 128) (by omega)
    have hvalue : (n / 64 % 32 + 192 - 0xC0) * 64 + (n % 64 + 128) % 64 = n := by omega
    rw [List.cons_append, List.singleton_append,
      decodeFrom_begin (begin_two (by omega) (by omega)), List.nil_append,
      decodeFrom_inside (by rw [hsecond]; exact Nat.le_add_left _ _)
        (by rw [hsecond]; exact show _ ≤ 191 by omega)]
    dsimp only
    rw [if_pos (Nat.le_refl 1), hfirst, hsecond, hvalue, hchar]
  split
  · have hfirst := toNat_byte (n := n / 4096 % 16 + 224) (by omega)
    have hsecond := toNat_byte (n := n / 64 % 64 + 128) (by omega)
    have hthird := toNat_byte (n := n % 64 + 128) (by omega)
    have hvalue : ((n / 4096 % 16 + 224 - 0xE0) * 64 + (n / 64 % 64 + 128) % 64) * 64 +
      (n % 64 + 128) % 64 = n := by omega
    rw [List.cons_append, List.cons_append, List.singleton_append,
      decodeFrom_begin (begin_three (by omega) (by omega)), List.nil_append, decodeFrom_inside]
    · dsimp only
      rw [if_neg (by decide), decodeFrom_inside (by rw [hthird]; exact Nat.le_add_left _ _)
        (by rw [hthird]; exact show _ ≤ 191 by omega)]
      dsimp only
      rw [if_pos (Nat.le_refl 1), hfirst, hsecond, hthird, hvalue, hchar]
    · -- the first three bytes of a range leave out the forms of two
      rw [hfirst, hsecond]
      dsimp only
      split
      · exact show 160 ≤ _ by omega
      · exact show 128 ≤ _ by omega
    · -- surrogates are no characters
      rw [hfirst, hsecond]
      dsimp only
      split
      · exact show _ ≤ 159 by omega
      · exact show _ ≤ 191 by omega
  · have hfirst := toNat_byte (n := n / 262144 % 8 + 240) (by omega)
    have hsecond := toNat_byte (n := n / 4096 % 64 + 128) (by omega)
    have hthird := toNat_byte (n := n / 64 % 64 + 128) (by omega)
    have hfourth := toNat_byte (n := n % 64 + 128) (by omega)
    have hvalue : (((n / 262144 % 8 + 240 - 0xF0) * 64 + (n / 4096 % 64 + 128) % 64) * 64 +
      (n / 64 % 64 + 128) % 64) * 64 + (n % 64 + 128) % 64 = n := by omega
    rw [List.cons_append, List.cons_append, List.cons_append, List.singleton_append,
      decodeFrom_begin (begin_four (by omega) (by omega)), List.nil_append, decodeFrom_inside]
    · dsimp only
      rw [if_neg (by decide), decodeFrom_inside (by rw [hthird]; exact Nat.le_add_left _ _)
        (by rw [hthird]; exact show _ ≤ 191 by omega)]
      dsimp only
      rw [if_neg (by decide), decodeFrom_inside (by rw [hfourth]; exact Nat.le_add_left _ _)
        (by rw [hfourth]; exact show _ ≤ 191 by omega)]
      dsimp only
      rw [if_pos (Nat.le_refl 1), hfirst, hsecond, hthird, hfourth, hvalue, hchar]
    · rw [hfirst, hsecond]
      dsimp only
      split
      · exact show 144 ≤ _ by omega
      · exact show 128 ≤ _ by omega
    · rw [hfirst, hsecond]
      dsimp only
      split
      · exact show _ ≤ 143 by omega
      · exact show _ ≤ 191 by omega

/-- Decoding shows the text that was encoded. -/
theorem decode_encode (text : List Char) : decode (encode text) = text := by
  induction text with
  | nil => rfl
  | cons c rest ih =>
    rw [encode_cons, decode, decodeFrom_encodeChar]
    exact congrArg (c :: ·) ih

/-! ### Cutting -/

theorem length_encodeChar_le (c : Char) : (String.utf8EncodeChar c).length ≤ 4 := by
  rw [String.length_utf8EncodeChar]
  exact c.utf8Size_le_four

private theorem isContinuation_of_lt {n : Nat} (h : n < 64) :
    Name.isContinuation (UInt8.ofNat (n + 128)) = true := by
  revert n
  decide

private theorem isContinuation_begin {n : Nat} (h : n < 256) (hbegin : n < 128 ∨ 192 ≤ n) :
    Name.isContinuation (UInt8.ofNat n) = false := by
  have hall : ∀ n < 256, n < 128 ∨ 192 ≤ n → Name.isContinuation (UInt8.ofNat n) = false := by
    decide +kernel
  exact hall n h hbegin

private theorem encodeChar_cases (c : Char) : ∃ first rest,
    String.utf8EncodeChar c = first :: rest ∧ Name.isContinuation first = false ∧
      ∀ byte ∈ rest, Name.isContinuation byte = true := by
  have hvalid : c.val.toNat < 0xD800 ∨ 0xDFFF < c.val.toNat ∧ c.val.toNat < 0x110000 := c.valid
  unfold String.utf8EncodeChar
  dsimp only
  generalize c.val.toNat = n at hvalid
  have hlow : ∀ m : Nat, Name.isContinuation (UInt8.ofNat (m % 64 + 128)) = true := fun m =>
    isContinuation_of_lt (Nat.mod_lt m (by decide))
  split
  · exact ⟨_, [], rfl, isContinuation_begin (by omega) (.inl (by omega)), by simp⟩
  split
  · refine ⟨_, [_], rfl, isContinuation_begin (by omega) (.inr (by omega)), ?_⟩
    simp only [List.mem_singleton, forall_eq, hlow]
  split
  · refine ⟨_, [_, _], rfl, isContinuation_begin (by omega) (.inr (by omega)), ?_⟩
    simp only [List.mem_cons, List.not_mem_nil, or_false, forall_eq_or_imp, forall_eq, hlow,
      and_self]
  · refine ⟨_, [_, _, _], rfl, isContinuation_begin (by omega) (.inr (by omega)), ?_⟩
    simp only [List.mem_cons, List.not_mem_nil, or_false, forall_eq_or_imp, forall_eq, hlow,
      and_self]

private theorem exists_split {limit : Nat} {text : List Char}
    (h : limit < (encode text).length) : ∃ front c back, text = front ++ c :: back ∧
      (encode front).length ≤ limit ∧ limit < (encode (front ++ [c])).length := by
  induction text generalizing limit with
  | nil => exact absurd h (Nat.not_lt_zero limit)
  | cons d rest ih =>
    rw [encode_cons, List.length_append] at h
    by_cases hfits : limit < (String.utf8EncodeChar d).length
    · refine ⟨[], d, rest, rfl, Nat.zero_le _, ?_⟩
      rw [List.nil_append, encode_cons, List.length_append]
      exact Nat.lt_of_lt_of_le hfits (Nat.le_add_right _ _)
    · have hrest : limit - (String.utf8EncodeChar d).length < (encode rest).length := by omega
      obtain ⟨front, c, back, rfl, hfront, hpast⟩ := ih hrest
      refine ⟨d :: front, c, back, rfl, ?_, ?_⟩
      · rw [encode_cons, List.length_append]
        omega
      · rw [List.cons_append, encode_cons, List.length_append]
        omega

end Utf8

namespace Name

/-- The boundary at or before a position lies where the last byte stands that continues nothing. -/
theorem boundary_eq {name : Name} {start : Nat}
    (hstart : start = 0 ∨ name[start]?.any isContinuation = false) :
    ∀ {position : Nat}, start ≤ position →
      (∀ k, start < k → k ≤ position → name[k]?.any isContinuation = true) →
        boundary name position = start
  | 0, hle, _ => by
    rw [Nat.le_zero.mp hle]
    rfl
  | position + 1, hle, hbetween => by
    rw [boundary]
    rcases Nat.lt_or_eq_of_le hle with hlt | rfl
    · rw [if_pos (hbetween (position + 1) hlt (Nat.le_refl _))]
      exact boundary_eq hstart (Nat.le_of_lt_succ hlt) fun k hk hlast =>
        hbetween k hk (Nat.le_succ_of_le hlast)
    · rw [if_neg]
      rw [hstart.resolve_left (Nat.succ_ne_zero position)]
      exact Bool.false_ne_true

/-- Truncating the bytes of a text leaves those of its longest prefix that fits. -/
theorem truncate_encode (text : List Char) : ∃ front back, text = front ++ back ∧
    truncate (Utf8.encode text) = Utf8.encode front ∧
      ∀ c rest, back = c :: rest → maxNameLength < (Utf8.encode (front ++ [c])).length := by
  by_cases hfits : (Utf8.encode text).length ≤ maxNameLength
  · exact ⟨text, [], (List.append_nil text).symm, truncate_of_length_le hfits, by simp⟩
  · obtain ⟨front, c, back, rfl, hfront, hpast⟩ := Utf8.exists_split (Nat.lt_of_not_le hfits)
    refine ⟨front, c :: back, rfl, ?_, ?_⟩
    · obtain ⟨first, others, hchar, hfirst, hothers⟩ := Utf8.encodeChar_cases c
      have hbytes : Utf8.encode (front ++ c :: back) =
          Utf8.encode front ++ first :: (others ++ Utf8.encode back) := by
        rw [Utf8.encode_append, Utf8.encode_cons, hchar, List.cons_append]
      rw [Utf8.encode_append, Utf8.encode_cons, hchar, Utf8.encode_nil] at hpast
      simp only [List.length_append, List.length_cons, List.length_nil] at hpast
      have hboundary : boundary (Utf8.encode (front ++ c :: back)) maxNameLength =
          (Utf8.encode front).length := by
        apply boundary_eq _ hfront
        · intro k hk hlast
          have hlt : k - (Utf8.encode front).length - 1 < others.length := by
            omega
          have hindex : k - (Utf8.encode front).length =
            k - (Utf8.encode front).length - 1 + 1 := by omega
          rw [hbytes, List.getElem?_append_right (Nat.le_of_lt hk), hindex,
            List.getElem?_cons_succ, List.getElem?_append_left hlt, List.getElem?_eq_getElem hlt]
          exact hothers _ (List.getElem_mem hlt)
        · right
          rw [hbytes, List.getElem?_append_right (Nat.le_refl _), Nat.sub_self,
            List.getElem?_cons_zero]
          exact hfirst
      rw [truncate, if_neg hfits, hboundary, Utf8.encode_append,
        List.take_left]
    · rintro d rest heq
      obtain ⟨rfl, rfl⟩ := List.cons.inj heq
      exact hpast

end Name

end BlockFS
