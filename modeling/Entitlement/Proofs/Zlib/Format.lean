import Entitlement.Proofs.Zlib.Huffman
import Entitlement.Zlib.Stream
/-!
Which bytes are a compressed stream of which output, said by the format alone: what the parts of a
stream are made of, and not how they are read.
-/

namespace Entitlement.Zlib

namespace Format

open PrefixCode (Spells)

-- The widths of the words in the two codes of a block.
structure Widths where
  literals : List Nat
  distances : List Nat

-- A length or a distance: a place in its table and how much is added there.
structure Entry (table : List (Nat × Nat)) (n value : Nat) (bits : List Bool) : Prop where
  spelled : ∃ base width more, table[n]? = some (base, width) ∧ more < 2 ^ width ∧
    value = base + more ∧ bits = field width more

-- From `out` to the output after the symbols. A copy begins in the output.
inductive Symbols (widths : Widths) : List Bool → ByteArray → ByteArray → Prop
  | stop : Spells widths.literals Inflate.endOfBlock bits → Symbols widths bits out out
  | literal {out} (byte : UInt8) : Spells widths.literals byte.toNat bits →
    Symbols widths more (out.push byte) final → Symbols widths (bits ++ more) out final
  | copy {out} : Spells widths.literals (257 + length) bits₁ →
    Entry Inflate.lengthTable length count bits₂ → Spells widths.distances place bits₃ →
    Entry Inflate.distanceTable place distance bits₄ → distance ≤ out.size →
    Symbols widths more (repeatBack distance count out) final →
    Symbols widths (bits₁ ++ (bits₂ ++ (bits₃ ++ (bits₄ ++ more)))) out final

def fixedWidths : Widths where
  literals := List.replicate 144 8 ++ List.replicate 112 9 ++ List.replicate 24 7 ++
    List.replicate 8 8
  distances := List.replicate 32 5

-- Symbols of one width that follow each other have words that follow each other.
theorem spells_row (widths : List Nat) (start first width : Nat) (hw : width < PrefixCode.maxWidth)
    (hr : ∀ n < count, widths[start + n]? = some (width + 1) ∧
      2 * PrefixCode.wordsEnd widths width + (widths.take (start + n)).count (width + 1) =
        first + n)
    (h : n < count) : Spells widths (start + n) (PrefixCode.word (width + 1) (first + n)) := by
  have ⟨hs, he⟩ := hr n h
  exact ⟨width, hs, hw, by rw [he]⟩

-- The rows that the format lists for the fixed codes, but for the bytes from 144 on.
theorem spells_fixed_byte (h : n < 144) :
    Spells fixedWidths.literals n (PrefixCode.word 8 (0x30 + n)) := by
  have hs := spells_row fixedWidths.literals 0 0x30 7 (by decide) (by decide +kernel) h
  rwa [Nat.zero_add] at hs

theorem spells_fixed_stop :
    Spells fixedWidths.literals Inflate.endOfBlock (PrefixCode.word 7 0) :=
  ⟨6, by decide, by decide, by decide +kernel⟩

theorem spells_fixed_length (h : n < 23) :
    Spells fixedWidths.literals (257 + n) (PrefixCode.word 7 (1 + n)) :=
  spells_row fixedWidths.literals 257 1 6 (by decide) (by decide +kernel) h

theorem spells_fixed_distance (h : n < 32) :
    Spells fixedWidths.distances n (PrefixCode.word 5 n) := by
  have hs := spells_row fixedWidths.distances 0 0 4 (by decide) (by decide +kernel) h
  rwa [Nat.zero_add] at hs

theorem symbols_bytes (block : List UInt8) (h : ∀ byte ∈ block, byte.toNat < 144)
    (hs : Symbols fixedWidths more (out ++ ⟨block.toArray⟩) final) :
    Symbols fixedWidths (block.flatMap (fun byte => PrefixCode.word 8 (0x30 + byte.toNat)) ++ more)
      out final := by
  induction block generalizing out
  case nil =>
    have he : out ++ ⟨[].toArray⟩ = out := ByteArray.append_empty
    rwa [he] at hs
  case cons byte block hi =>
    have ⟨hb, h⟩ := List.forall_mem_cons.mp h
    have ha : out ++ ⟨(byte :: block).toArray⟩ = out.push byte ++ ⟨block.toArray⟩ := by
      simp [ByteArray.ext_iff, ByteArray.data_append]
    rw [List.flatMap_cons, List.append_assoc]
    exact .literal byte (spells_fixed_byte hb) (hi h (ha ▸ hs))

-- A symbol that stands for a run: the width of the number after it, the least length of the run and
-- what is repeated, which is the last width or zero.
inductive Repeats : (prior : Option Nat) → (symbol width least w : Nat) → Prop
  | last : Repeats (some w) 16 2 3 w
  | zero : Repeats prior 17 3 3 0
  | zeros : Repeats prior 18 7 11 0

-- Widths in a code of their own.
inductive Runs (code : List Nat) : (prior : Option Nat) → List Bool → List Nat → Prop
  | done : Runs code prior [] []
  | width : w < 16 → Spells code w bits → Runs code (some w) more widths →
    Runs code prior (bits ++ more) (w :: widths)
  | run : Repeats prior symbol width least w → n < 2 ^ width → Spells code symbol bits →
    Runs code (some w) more widths →
    Runs code prior (bits ++ (field width n ++ more)) (List.replicate (least + n) w ++ widths)

-- The widths for the symbols 0 to 18, which are not written in that order.
def inOrder (written : List Nat) : List Nat :=
  (List.range 19).map fun n => ((Inflate.widthOrder.zip written).lookup n).getD 0

-- The codes of a block that brings its own.
structure Header (widths : Widths) (bits : List Bool) : Prop where
  literals : 257 ≤ widths.literals.length ∧ widths.literals.length ≤ Inflate.maxLiterals
  distances : 1 ≤ widths.distances.length ∧ widths.distances.length ≤ Inflate.maxDistances
  usable : (PrefixCode.isComplete widths.literals || PrefixCode.isTrivial widths.literals) ∧
    (PrefixCode.isComplete widths.distances || PrefixCode.isTrivial widths.distances)
  spelled : ∃ written runs, 4 ≤ written.length ∧ written.length ≤ 19 ∧ (∀ w ∈ written, w < 2 ^ 3) ∧
    PrefixCode.isComplete (inOrder written) ∧
    Runs (inOrder written) none runs (widths.literals ++ widths.distances) ∧
    bits = field 5 (widths.literals.length - 257) ++ (field 5 (widths.distances.length - 1) ++
      (field 4 (written.length - 4) ++ (written.flatMap (field 3) ++ runs)))

-- The length stands before the bytes, and again with all bits turned over.
def storedBytes (block : List UInt8) : List UInt8 :=
  littleEndian block.length ++ littleEndian (maxStored - block.length) ++ block

-- What follows the kind of a block. Stored bytes begin with a byte of the stream, which is why the
-- place of the block in the stream matters.
inductive Block : (kind start : Nat) → List Bool → ByteArray → ByteArray → Prop
  | stored (block : List UInt8) : pad.length < 8 → (start + pad.length) % 8 = 0 →
    block.length ≤ maxStored →
    Block 0 start (pad ++ bitsOf (storedBytes block)) out (out ++ ⟨block.toArray⟩)
  | fixed : Symbols fixedWidths bits out final → Block 1 start bits out final
  | dynamic : Header widths head → Symbols widths bits out final →
    Block 2 start (head ++ bits) out final

inductive Blocks : (start : Nat) → List Bool → ByteArray → ByteArray → Prop
  | last : Block kind (start + 3) bits out final →
    Blocks start (true :: (field 2 kind ++ bits)) out final
  | more : Block kind (start + 3) bits out middle →
    Blocks (start + 3 + bits.length) rest middle final →
    Blocks start (false :: (field 2 kind ++ (bits ++ rest))) out final

end Format

-- The blocks end within the last byte before the checksum.
structure Stream (bytes : List UInt8) (out : ByteArray) : Prop where
  made : ∃ method flags body bits pad, bytes = method :: flags :: body ++ bigEndian (adler out) ∧
    isHeader method flags ∧ bitsOf body = bits ++ pad ∧ pad.length < 8 ∧
    Format.Blocks 0 bits .empty out

end Entitlement.Zlib
