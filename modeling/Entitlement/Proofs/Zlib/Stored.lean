import Entitlement.Proofs.Zlib.Inflate
/-!
What is compressed comes out again: `compress` writes a stream of stored blocks.
-/

namespace Entitlement.Zlib

open Format (Block Blocks storedBytes)

variable {block bytes : List UInt8}

-- The first byte of a block only tells whether it is the last one.
theorem bitsOf_storedBlock (last : Bool) (block : List UInt8) :
    bitsOf (storedBlock last block) =
      last :: (field 2 0 ++ (List.replicate 5 false ++ bitsOf (storedBytes block))) := by
  cases last <;> rfl

theorem block_storedBytes (out : ByteArray) (hs : start % 8 = 0) (h : block.length ≤ maxStored) :
    Block 0 (start + 3) (List.replicate 5 false ++ bitsOf (storedBytes block)) out
      (out ++ ⟨block.toArray⟩) := by
  have hp : (List.replicate 5 false).length = 5 := List.length_replicate
  exact .stored block (by omega) (by omega) h

theorem blocks_storedBlock (out : ByteArray) (hs : start % 8 = 0) (h : block.length ≤ maxStored) :
    Blocks start (bitsOf (storedBlock true block)) out (out ++ ⟨block.toArray⟩) := by
  rw [bitsOf_storedBlock]
  exact .last (block_storedBytes out hs h)

theorem length_drop_lt (h : bytes.length < (more + 1 + 1) * maxStored) :
    (bytes.drop maxStored).length < (more + 1) * maxStored := by
  have hm : 0 < maxStored := by decide
  rw [Nat.succ_mul] at h
  rw [List.length_drop]
  have hp : 0 < (more + 1) * maxStored := Nat.mul_pos (Nat.succ_pos more) hm
  omega

theorem blocks_storedBlocks (out : ByteArray) (hs : start % 8 = 0)
    (h : bytes.length < (more + 1) * maxStored) :
    Blocks start (bitsOf (storedBlocks more bytes)) out (out ++ ⟨bytes.toArray⟩) := by
  induction more generalizing start bytes out
  case zero =>
    have hl : bytes.length ≤ maxStored := by omega
    rw [storedBlocks, List.take_of_length_le hl]
    exact blocks_storedBlock out hs hl
  case succ more hi =>
    rw [storedBlocks]
    split
    case isTrue hl => exact blocks_storedBlock out hs hl
    case isFalse =>
      have ha : (⟨(bytes.take maxStored).toArray⟩ ++ ⟨(bytes.drop maxStored).toArray⟩ : ByteArray) =
          ⟨bytes.toArray⟩ := by
        simp [ByteArray.ext_iff, ByteArray.data_append]
      have hb := block_storedBytes out hs (List.length_take_le maxStored bytes)
      rw [bitsOf_append, bitsOf_storedBlock, List.cons_append, List.append_assoc,
        ← ha, ← ByteArray.append_assoc]
      refine .more hb (hi _ ?_ (length_drop_lt h))
      rw [List.length_append, List.length_replicate, length_bitsOf]
      omega

theorem stream_compress (bytes : ByteArray) : Stream (compress bytes) bytes where
  made := by
    have hm : 0 < maxStored := by decide
    have hl : bytes.data.toList.length < (bytes.size / maxStored + 1) * maxStored := by
      rw [Nat.mul_comm]
      exact Nat.lt_mul_div_succ bytes.size hm
    have hb := blocks_storedBlocks .empty (Nat.zero_mod 8) hl
    rw [ByteArray.empty_append] at hb
    exact ⟨0x78, 0x01, _, _, [], rfl, by decide, (List.append_nil _).symm, by decide, hb⟩

theorem decompress?_compress (bytes : ByteArray) : decompress? (compress bytes) = some bytes :=
  (stream_compress bytes).decompress?

end Entitlement.Zlib
