import BlockFS.Proofs.Codec.Directory
import BlockFS.Proofs.Codec.Inode
import BlockFS.Proofs.Codec.Superblock

/-!
Codecs between records and buffers. Inodes and directories fill a block: what is read from one gives
back every byte of it, and what is written to one is read back. A superblock fills the front of a
buffer and clears the rest.
-/

set_option autoImplicit false
set_option relaxedAutoImplicit false

namespace BlockFS

namespace Block

theorem ofBuffer_toList (block : Block) : ofBuffer block.toList = .ok block := by
  have hlength : block.toList.length = blockSize := Vector.length_toList
  have htake : block.toList.take blockSize = block.toList :=
    List.take_of_length_le (Nat.le_of_eq hlength)
  rw [ofBuffer, dif_pos (by rw [htake, hlength])]
  congr 1
  exact Vector.toList_inj.mp htake

theorem intoBuffer_of_length (block : Block) {buffer : List UInt8}
    (h : buffer.length = blockSize) : block.intoBuffer buffer = .ok block.toList := by
  rw [intoBuffer, if_pos (Nat.le_of_eq h.symm), List.drop_of_length_le (Nat.le_of_eq h),
    List.append_nil]

end Block

namespace Directory

private theorem covered_blockSize : covered blockSize = blockSize := by decide

theorem ofBuffer_toList (block : Block) : ofBuffer block.toList = decode block := by
  have hlength : block.toList.length = blockSize := Vector.length_toList
  rw [ofBuffer, hlength, covered_blockSize, List.take_of_length_le (Nat.le_of_eq hlength),
    Block.padded_toList]

theorem intoBuffer_of_length (d : Directory) {buffer : List UInt8}
    (h : buffer.length = blockSize) : d.intoBuffer buffer = d.encode.toList := by
  have hlength : d.encode.toList.length = blockSize := Vector.length_toList
  rw [intoBuffer, h, covered_blockSize, List.take_of_length_le (Nat.le_of_eq hlength),
    List.drop_of_length_le (Nat.le_of_eq h), List.append_nil]

def Encodable (d : Directory) : Prop := ∀ k, (d.get k).inode.toNat < slotLimit

end Directory

/-- Reading and writing whole blocks are inverse to each other, between all blocks and the records
that are encodable, and nothing is left of what a buffer held before. -/
structure FillsBlock {α : Type} (Encodable : α → Prop) (read : List UInt8 → Except Failure α)
    (write : α → List UInt8 → Except Failure (List UInt8)) : Prop where
  rewritten : ∀ (block : Block) {buffer : List UInt8}, buffer.length = blockSize →
    ∃ a, Encodable a ∧ read block.toList = .ok a ∧ write a buffer = .ok block.toList
  reread : ∀ {a : α} {buffer : List UInt8}, Encodable a → buffer.length = blockSize →
    ∃ block : Block, write a buffer = .ok block.toList ∧ read block.toList = .ok a

theorem Inode.fillsBlock : FillsBlock (fun _ => True) Inode.ofBuffer Inode.intoBuffer where
  rewritten block buffer hlength := by
    refine ⟨decode block, trivial, ?_, ?_⟩
    · rw [ofBuffer, Block.ofBuffer_toList]
      rfl
    · rw [intoBuffer, encode_decode, block.intoBuffer_of_length hlength]
  reread {i buffer} _ hlength := by
    refine ⟨i.encode, i.encode.intoBuffer_of_length hlength, ?_⟩
    rw [ofBuffer, Block.ofBuffer_toList]
    exact congrArg Except.ok i.decode_encode

theorem Directory.fillsBlock : FillsBlock Directory.Encodable
    (fun bytes => .ok (Directory.ofBuffer bytes))
    (fun d buffer => .ok (d.intoBuffer buffer)) where
  rewritten block buffer hlength := by
    refine ⟨decode block, inode_get_decode_lt block, ?_, ?_⟩
    · rw [ofBuffer_toList]
    · rw [intoBuffer_of_length _ hlength, encode_decode]
  reread {d buffer} hencodable hlength := by
    refine ⟨d.encode, ?_, ?_⟩
    · rw [d.intoBuffer_of_length hlength]
    · rw [ofBuffer_toList, decode_encode hencodable]

namespace Superblock

/-- A buffer that was given a superblock: it is read back, and all behind it is clear. -/
structure Leads (sb : Superblock) (bytes : List UInt8) : Prop where
  reread : ofBuffer bytes = .ok sb
  clear : ∀ byte ∈ bytes.drop headerSize, byte = 0

theorem leads_toBuffer (sb : Superblock) {length : Nat} (h : headerSize ≤ length) :
    ∃ bytes, sb.toBuffer length = .ok bytes ∧ bytes.length = length ∧ sb.Leads bytes := by
  have hlength : (sb.header ++ List.replicate (length - headerSize) 0).length = length := by
    rw [List.length_append, length_header, List.length_replicate]
    omega
  refine ⟨_, if_pos h, hlength, ?_, ?_⟩
  · rw [ofBuffer, if_pos (by omega), decode_padded]
  · intro byte hbyte
    rw [List.drop_left' sb.length_header] at hbyte
    exact List.eq_of_mem_replicate hbyte

end Superblock

/-- What a record loses when it is written and read, or a block when it is read and written:
nothing. -/
structure LosslessCodecs : Prop where
  inode : FillsBlock (fun _ => True) Inode.ofBuffer Inode.intoBuffer
  directory : FillsBlock Directory.Encodable (fun bytes => .ok (Directory.ofBuffer bytes))
    (fun d buffer => .ok (d.intoBuffer buffer))
  superblock : ∀ (sb : Superblock) {length : Nat}, Superblock.headerSize ≤ length →
    ∃ bytes, sb.toBuffer length = .ok bytes ∧ bytes.length = length ∧ sb.Leads bytes
  superblockBlock : ∀ sb : Superblock,
    sb.toBuffer blockSize = .ok sb.encode.toList ∧ Superblock.decode sb.encode = sb

/-- The codecs lose nothing in either direction. -/
theorem codecs_lossless : LosslessCodecs where
  inode := Inode.fillsBlock
  directory := Directory.fillsBlock
  superblock sb _ hlength := sb.leads_toBuffer hlength
  superblockBlock sb := ⟨sb.toBuffer_blockSize, sb.decode_encode⟩

end BlockFS
