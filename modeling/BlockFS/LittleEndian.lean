/-!
Words as bytes, the least significant byte first. `decode_encode` and `encode_decode` say that the
numbers below `capacity width` and the byte strings of length `width` correspond one to one.
-/

set_option autoImplicit false
set_option relaxedAutoImplicit false

namespace BlockFS.LittleEndian

/-- The lowest `width` bytes of a number; higher ones are dropped. -/
def encode : (width value : Nat) → List UInt8
  | 0, _ => []
  | width + 1, value => UInt8.ofNat value :: encode width (value / 256)

def decode : List UInt8 → Nat
  | [] => 0
  | byte :: rest => byte.toNat + 256 * decode rest

@[simp] theorem length_encode (width value : Nat) : (encode width value).length = width := by
  induction width generalizing value with
  | zero => rfl
  | succ width ih => simp [encode, ih]

def capacity : Nat → Nat
  | 0 => 1
  | width + 1 => 256 * capacity width

theorem decode_encode (width value : Nat) :
    decode (encode width value) = value % capacity width := by
  induction width generalizing value with
  | zero => exact (Nat.mod_one value).symm
  | succ width ih =>
    simp only [encode, decode, ih, capacity, UInt8.toNat_ofNat']
    exact (Nat.mod_mul ..).symm

theorem encode_decode (bytes : List UInt8) : encode bytes.length (decode bytes) = bytes := by
  induction bytes with
  | nil => rfl
  | cons byte rest ih =>
    have hbyte := byte.toNat_lt
    have hquot : (byte.toNat + 256 * decode rest) / 256 = decode rest := by omega
    simp only [List.length_cons, decode, encode, hquot, ih]
    congr 1
    apply UInt8.toNat_inj.1
    simp only [UInt8.toNat_ofNat']
    omega

def bytes (width value : Nat) : Vector UInt8 width :=
  ⟨(encode width value).toArray, by simp⟩

/-- The number spelled by the `width` bytes of a record that begin at a position. -/
def word {n : Nat} (record : Vector UInt8 n) (start width : Nat) : Nat :=
  decode (record.extract start (start + width)).toList

end BlockFS.LittleEndian
