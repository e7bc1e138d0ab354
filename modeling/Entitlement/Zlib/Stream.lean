import Entitlement.Zlib.Inflate
/-!
Deflated bytes between a header of two bytes and a checksum of four. `compress` stores its input in
blocks without coding them.
-/

namespace Entitlement.Zlib

def adlerBase : Nat := 65521

def adler (bytes : ByteArray) : Nat :=
  let (a, b) := bytes.foldl (fun (a, b) byte =>
    let a := (a + byte.toNat) % adlerBase
    (a, (b + a) % adlerBase)) (1, 0)
  b * 0x10000 + a

def bigEndian (n : Nat) : List UInt8 :=
  [UInt8.ofNat (n / 0x1000000), UInt8.ofNat (n / 0x10000 % 0x100), UInt8.ofNat (n / 0x100 % 0x100),
    UInt8.ofNat (n % 0x100)]

-- Deflate with a window of 32 KiB at most and no dictionary.
def isHeader (method flags : UInt8) : Bool :=
  method.toNat % 0x10 = 8 && method.toNat / 0x10 ≤ 7 && !flags.toNat.testBit 5 &&
    (method.toNat * 0x100 + flags.toNat) % 31 = 0

-- Whatever follows the checksum is ignored.
def decompress? : List UInt8 → Option ByteArray
  | method :: flags :: body =>
    if isHeader method flags then do
      let (rest, out) ← inflate? body
      if rest.take 4 = bigEndian (adler out) then some out else none
    else none
  | _ => none

def littleEndian (n : Nat) : List UInt8 :=
  [UInt8.ofNat (n % 0x100), UInt8.ofNat (n / 0x100)]

def maxStored : Nat := 0xFFFF

def storedBlock (last : Bool) (bytes : List UInt8) : List UInt8 :=
  (if last then 1 else 0) :: littleEndian bytes.length ++ littleEndian (maxStored - bytes.length) ++
    bytes

-- `more` bounds the number of blocks after this one.
def storedBlocks : (more : Nat) → List UInt8 → List UInt8
  | 0, bytes => storedBlock true (bytes.take maxStored)
  | more + 1, bytes =>
    if bytes.length ≤ maxStored then storedBlock true bytes
    else storedBlock false (bytes.take maxStored) ++ storedBlocks more (bytes.drop maxStored)

def compress (bytes : ByteArray) : List UInt8 :=
  0x78 :: 0x01 :: storedBlocks (bytes.size / maxStored) bytes.data.toList ++ bigEndian (adler bytes)

end Entitlement.Zlib
