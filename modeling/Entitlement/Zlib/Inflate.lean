import Entitlement.Zlib.Huffman
/-!
The deflate format: blocks of bytes that are stored as they are, or written with a code for literals
and lengths and one for distances. A length and a distance repeat bytes of the output.
-/

namespace Entitlement.Zlib

-- The byte that lies `distance` back. Before the start of the output there are only zeros.
def byteBack (out : ByteArray) (distance : Nat) : UInt8 :=
  if h : 0 < distance ∧ distance ≤ out.size then out.get (out.size - distance) (by omega) else 0

-- Bytes that were just repeated count too.
def repeatBack (distance : Nat) : (count : Nat) → ByteArray → ByteArray
  | 0, out => out
  | count + 1, out => repeatBack distance count (out.push (byteBack out distance))

namespace Inflate

structure Codes where
  literals : PrefixCode
  distances : PrefixCode

-- A base and a number of bits that are added to it.
def lengthTable : List (Nat × Nat) := [
  (3, 0), (4, 0), (5, 0), (6, 0), (7, 0), (8, 0), (9, 0), (10, 0), (11, 1), (13, 1), (15, 1), (17, 1),
  (19, 2), (23, 2), (27, 2), (31, 2), (35, 3), (43, 3), (51, 3), (59, 3), (67, 4), (83, 4), (99, 4),
  (115, 4), (131, 5), (163, 5), (195, 5), (227, 5), (258, 0)]

def distanceTable : List (Nat × Nat) := [
  (1, 0), (2, 0), (3, 0), (4, 0), (5, 1), (7, 1), (9, 2), (13, 2), (17, 3), (25, 3), (33, 4), (49, 4),
  (65, 5), (97, 5), (129, 6), (193, 6), (257, 7), (385, 7), (513, 8), (769, 8), (1025, 9), (1537, 9),
  (2049, 10), (3073, 10), (4097, 11), (6145, 11), (8193, 12), (12289, 12), (16385, 13), (24577, 13)]

def entry? (table : List (Nat × Nat)) (n : Nat) (bits : Bits) : Option (Nat × Bits) := do
  let (base, width) ← table[n]?
  let (more, bits) ← bits.number? width
  return (base + more, bits)

def fixedCodes : Codes where
  literals := PrefixCode.build <|
    List.replicate 144 8 ++ List.replicate 112 9 ++ List.replicate 24 7 ++ List.replicate 8 8
  distances := PrefixCode.build (List.replicate 32 5)

def endOfBlock : Nat := 256

-- `fuel` is the number of bits left at most; every symbol takes one of them.
def symbols? (codes : Codes) : (fuel : Nat) → Bits → ByteArray → Option (Bits × ByteArray)
  | 0, _, _ => none
  | fuel + 1, bits, out => do
    let (n, bits) ← codes.literals.read? bits
    if n < endOfBlock then symbols? codes fuel bits (out.push (UInt8.ofNat n))
    else if n = endOfBlock then return (bits, out)
    else
      let (count, bits) ← entry? lengthTable (n - 257) bits
      let (d, bits) ← codes.distances.read? bits
      let (distance, bits) ← entry? distanceTable d bits
      symbols? codes fuel bits (repeatBack distance count out)

-- The order in which the widths of the code for widths are written.
def widthOrder : List Nat :=
  [16, 17, 18, 0, 8, 7, 9, 6, 10, 5, 11, 4, 12, 3, 13, 2, 14, 1, 15]

def numbers? (width : Nat) : (count : Nat) → Bits → Option (List Nat × Bits)
  | 0, bits => some ([], bits)
  | count + 1, bits => do
    let (n, bits) ← bits.number? width
    let (rest, bits) ← numbers? width count bits
    return (n :: rest, bits)

def widthCode? (written : List Nat) : Option PrefixCode :=
  let widths := (List.range 19).map fun n => ((widthOrder.zip written).lookup n).getD 0
  if PrefixCode.isComplete widths then some (.build widths) else none

-- Widths are written one by one or as runs: of the last one, or of zeros. `read` holds those read so
-- far, last first.
def widths? (code : PrefixCode) (total : Nat) : (fuel : Nat) → List Nat → Bits →
    Option (List Nat × Bits)
  | 0, _, _ => none
  | fuel + 1, read, bits =>
    if total ≤ read.length then
      if read.length = total then some (read.reverse, bits) else none
    else do
      let (n, bits) ← code.read? bits
      if n < 16 then widths? code total fuel (n :: read) bits
      else if n = 16 then
        let last ← read.head?
        let (more, bits) ← bits.number? 2
        widths? code total fuel (List.replicate (3 + more) last ++ read) bits
      else if n = 17 then
        let (more, bits) ← bits.number? 3
        widths? code total fuel (List.replicate (3 + more) 0 ++ read) bits
      else
        let (more, bits) ← bits.number? 7
        widths? code total fuel (List.replicate (11 + more) 0 ++ read) bits

def maxLiterals : Nat := 286

def maxDistances : Nat := 30

def codes? (bits : Bits) : Option (Codes × Bits) := do
  let (literalsMore, bits) ← bits.number? 5
  let (distancesMore, bits) ← bits.number? 5
  let (widthsMore, bits) ← bits.number? 4
  let literalCount := literalsMore + 257
  let distanceCount := distancesMore + 1
  guard (literalCount ≤ maxLiterals && distanceCount ≤ maxDistances)
  let (written, bits) ← numbers? 3 (widthsMore + 4) bits
  let code ← widthCode? written
  let total := literalCount + distanceCount
  let (widths, bits) ← widths? code total (total + 1) [] bits
  let literals ← PrefixCode.ofWidths? (widths.take literalCount)
  let distances ← PrefixCode.ofWidths? (widths.drop literalCount)
  return (⟨literals, distances⟩, bits)

-- The length of a stored block stands there twice, the second time with all bits turned over.
def stored? : List UInt8 → Option (List UInt8 × List UInt8)
  | a :: b :: c :: d :: rest =>
    let length := a.toNat + 0x100 * b.toNat
    let check := c.toNat + 0x100 * d.toNat
    let block := rest.take length
    if length + check = 0xFFFF ∧ block.length = length then some (block, rest.drop length) else none
  | _ => none

def block? (kind : Nat) (bits : Bits) (out : ByteArray) : Option (Bits × ByteArray) :=
  match kind with
  | 0 => do
    let (block, rest) ← stored? bits.aligned
    return (.ofBytes rest, out ++ ⟨block.toArray⟩)
  | 1 => symbols? fixedCodes bits.size bits out
  | 2 => do
    let (codes, bits) ← codes? bits
    symbols? codes bits.size bits out
  | _ => none

-- Each block takes three bits at least.
def blocks? : (fuel : Nat) → Bits → ByteArray → Option (List UInt8 × ByteArray)
  | 0, _, _ => none
  | fuel + 1, bits, out => do
    let (last, bits) ← bits.next?
    let (kind, bits) ← bits.number? 2
    let (bits, out) ← block? kind bits out
    if last then return (bits.aligned, out) else blocks? fuel bits out

end Inflate

-- The output of a stream, and what follows the stream from the next whole byte on.
def inflate? (bytes : List UInt8) : Option (List UInt8 × ByteArray) :=
  let bits := Bits.ofBytes bytes
  Inflate.blocks? bits.size bits .empty

end Entitlement.Zlib
