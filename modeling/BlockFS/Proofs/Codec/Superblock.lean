import BlockFS.Proofs.Codec.Words
import BlockFS.Record.Superblock

/-!
A superblock that is written to a block or a buffer is read back from it, whatever follows it there.
-/

set_option autoImplicit false
set_option relaxedAutoImplicit false

namespace BlockFS

theorem Block.toList_padded (bytes : List UInt8) :
    (Block.padded bytes).toList = bytes.take blockSize ++
      List.replicate (blockSize - bytes.length) 0 := by
  rw [Block.padded, Vector.toList, List.toList_toArray, List.take_append, List.take_replicate]
  congr 2
  omega

namespace Superblock

open LittleEndian (fieldBytes word_of_fields capacity_four)

def fields (sb : Superblock) : List (Nat × Nat) := [(4, sb.magic.toNat), (4, sb.diskSize.toNat)]

theorem header_eq (sb : Superblock) : sb.header = fieldBytes sb.fields := by
  simp only [header, fieldBytes, fields, List.flatMap_cons, List.flatMap_nil, List.append_nil]

theorem length_header (sb : Superblock) : sb.header.length = headerSize := by simp [header]

theorem decode_padded (sb : Superblock) (back : List UInt8) :
    decode (Block.padded (sb.header ++ back)) = sb := by
  have hlist : (Block.padded (sb.header ++ back)).toList = fieldBytes sb.fields ++
      (back.take (blockSize - headerSize) ++
        List.replicate (blockSize - (sb.header ++ back).length) 0) := by
    rw [Block.toList_padded, List.take_append, length_header,
      List.take_of_length_le (by rw [length_header]; decide), List.append_assoc, header_eq]
  have hmagic : LittleEndian.word (Block.padded (sb.header ++ back)) 0 4 = sb.magic.toNat :=
    word_of_fields [] hlist (by rw [capacity_four]; exact sb.magic.toNat_lt)
  have hsize : LittleEndian.word (Block.padded (sb.header ++ back)) 4 4 = sb.diskSize.toNat :=
    word_of_fields (sb.fields.take 1) hlist (by rw [capacity_four]; exact sb.diskSize.toNat_lt)
  rw [decode, hmagic, hsize, UInt32.ofNat_toNat, UInt32.ofNat_toNat]

theorem decode_encode (sb : Superblock) : decode sb.encode = sb := by
  simpa only [encode, List.append_nil] using sb.decode_padded []

theorem toBuffer_blockSize (sb : Superblock) : sb.toBuffer blockSize = .ok sb.encode.toList := by
  rw [toBuffer, if_pos (by decide), encode, Block.toList_padded, length_header,
    List.take_of_length_le (by rw [length_header]; decide)]

end Superblock

end BlockFS
