import Entitlement.Zlib.Bits
/-!
Prefix codes given by the lengths of their words. Words of one length are counted up in the order of
their symbols, and shorter words come first.
-/

namespace Entitlement.Zlib

inductive PrefixCode where
  | unused
  | symbol (n : Nat)
  | fork (zero one : PrefixCode)
deriving Repr

namespace PrefixCode

-- The word that `width` bits of `word` spell, the highest first.
def insert (n : Nat) : (width word : Nat) → PrefixCode → PrefixCode
  | 0, _, _ => symbol n
  | width + 1, word, fork zero one =>
    if word.testBit width then fork zero (insert n width word one)
    else fork (insert n width word zero) one
  | width + 1, word, _ =>
    if word.testBit width then fork unused (insert n width word unused)
    else fork (insert n width word unused) unused

def maxWidth : Nat := 15

-- Symbols with their widths; a width of zero means that the symbol is not used.
def used (widths : List Nat) : List (Nat × Nat) :=
  widths.zipIdx.filter (·.1 ≠ 0)

-- The share of all words of the greatest width that begin with a word of the code.
def share (widths : List Nat) : Nat :=
  (used widths).foldr (fun (width, _) n => Nat.pow 2 (maxWidth - width) + n) 0

def isComplete (widths : List Nat) : Bool :=
  share widths = Nat.pow 2 maxWidth

def insertAll (width : Nat) : (word : Nat) → List (Nat × Nat) → PrefixCode → PrefixCode × Nat
  | word, [], code => (code, word)
  | word, (_, n) :: rest, code => insertAll width (word + 1) rest (insert n width word code)

def build (widths : List Nat) : PrefixCode :=
  let step := fun (state : PrefixCode × Nat) (width : Nat) =>
    insertAll width (2 * state.2) ((used widths).filter (·.1 = width)) state.1
  (((List.range maxWidth).map (· + 1)).foldl step (unused, 0)).1

-- No word, or a single one of the least width. Such a code lacks words but is taken all the same.
def isTrivial (widths : List Nat) : Bool :=
  match used widths with
  | [] => true
  | [(width, _)] => width = 1
  | _ => false

-- Any other code must neither lack words nor have too many.
def ofWidths? (widths : List Nat) : Option PrefixCode :=
  if isComplete widths || isTrivial widths then some (build widths) else none

def read? : PrefixCode → Bits → Option (Nat × Bits)
  | unused, _ => none
  | symbol n, bits => some (n, bits)
  | fork zero one, bits => do
    let (bit, bits) ← bits.next?
    if bit then read? one bits else read? zero bits

end PrefixCode
end Entitlement.Zlib
