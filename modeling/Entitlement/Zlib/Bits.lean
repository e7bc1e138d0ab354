/-!
A byte list read bit by bit, each byte from its low end.
-/

namespace Entitlement.Zlib

structure Bits where
  -- what is left of the byte that was begun
  held : List Bool
  bytes : List UInt8
deriving DecidableEq, Repr

namespace Bits

def ofBytes (bytes : List UInt8) : Bits := ⟨[], bytes⟩

def ofByte (byte : UInt8) : List Bool :=
  (List.range 8).map byte.toNat.testBit

def size (bits : Bits) : Nat :=
  bits.held.length + 8 * bits.bytes.length

def next? : Bits → Option (Bool × Bits)
  | ⟨bit :: held, bytes⟩ => some (bit, ⟨held, bytes⟩)
  | ⟨[], byte :: bytes⟩ =>
    match ofByte byte with
    | bit :: held => some (bit, ⟨held, bytes⟩)
    | [] => none
  | ⟨[], []⟩ => none

-- A number of `width` bits, the lowest first.
def number? : (width : Nat) → Bits → Option (Nat × Bits)
  | 0, bits => some (0, bits)
  | width + 1, bits => do
    let (bit, bits) ← bits.next?
    let (n, bits) ← number? width bits
    return (bit.toNat + 2 * n, bits)

-- The rest from the next whole byte on.
def aligned (bits : Bits) : List UInt8 :=
  bits.bytes

end Bits
end Entitlement.Zlib
