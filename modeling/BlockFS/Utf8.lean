/-!
Text as bytes and bytes as text. Encoding is UTF-8. Decoding never fails: a piece of malformed
input, as long as it begins like a character, is shown as one replacement character, and so is each
byte that can begin none.
-/

set_option autoImplicit false
set_option relaxedAutoImplicit false

namespace BlockFS.Utf8

def encode (text : List Char) : List UInt8 := text.flatMap String.utf8EncodeChar

/-- A character read in part: the bits so far, the bytes still missing, and the range in which the
next of them must lie. -/
structure Partial where
  value : Nat
  missing : Nat
  low : UInt8
  high : UInt8

/-- Shown in place of malformed bytes. -/
def replacement : Char := '\uFFFD'

/-- The first byte of a character: a text that is complete, and a character read in part if there
is one. The ranges leave out overlong forms, surrogates and numbers past the last character. -/
def begin (byte : UInt8) : List Char × Option Partial :=
  let n := byte.toNat
  if n < 0x80 then ([Char.ofNat n], none)
  else if n < 0xC2 then ([replacement], none)
  else if n < 0xE0 then ([], some ⟨n - 0xC0, 1, 0x80, 0xBF⟩)
  else if n = 0xE0 then ([], some ⟨0, 2, 0xA0, 0xBF⟩)
  else if n = 0xED then ([], some ⟨n - 0xE0, 2, 0x80, 0x9F⟩)
  else if n < 0xF0 then ([], some ⟨n - 0xE0, 2, 0x80, 0xBF⟩)
  else if n = 0xF0 then ([], some ⟨0, 3, 0x90, 0xBF⟩)
  else if n < 0xF4 then ([], some ⟨n - 0xF0, 3, 0x80, 0xBF⟩)
  else if n = 0xF4 then ([], some ⟨4, 3, 0x80, 0x8F⟩)
  else ([replacement], none)

/-- One more byte. A byte that does not continue the character begins the next one. -/
def advance (byte : UInt8) : Option Partial → List Char × Option Partial
  | none => begin byte
  | some p =>
    if p.low ≤ byte ∧ byte ≤ p.high then
      let value := p.value * 64 + byte.toNat % 64
      if p.missing ≤ 1 then ([Char.ofNat value], none)
      else ([], some ⟨value, p.missing - 1, 0x80, 0xBF⟩)
    else
      let (shown, next) := begin byte
      (replacement :: shown, next)

def decodeFrom : Option Partial → List UInt8 → List Char
  | none, [] => []
  | some _, [] => [replacement]
  | state, byte :: rest =>
    let (shown, next) := advance byte state
    shown ++ decodeFrom next rest

def decode (bytes : List UInt8) : List Char := decodeFrom none bytes

end BlockFS.Utf8
