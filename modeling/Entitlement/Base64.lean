/-!
Bytes as text in the standard base64 alphabet, four characters for three bytes, with padding. Every
byte list has one written form, and `decode?` takes nothing else.
-/

namespace Entitlement.Base64

def letter (n : Nat) : Char :=
  if n < 26 then Char.ofNat ('A'.toNat + n)
  else if n < 52 then Char.ofNat ('a'.toNat + (n - 26))
  else if n < 62 then Char.ofNat ('0'.toNat + (n - 52))
  else if n = 62 then '+'
  else '/'

def value? (c : Char) : Option Nat :=
  if 'A' ≤ c ∧ c ≤ 'Z' then some (c.toNat - 'A'.toNat)
  else if 'a' ≤ c ∧ c ≤ 'z' then some (c.toNat - 'a'.toNat + 26)
  else if '0' ≤ c ∧ c ≤ '9' then some (c.toNat - '0'.toNat + 52)
  else if c = '+' then some 62
  else if c = '/' then some 63
  else none

def encode : List UInt8 → List Char
  | [] => []
  | [a] =>
    let n := a.toNat * 0x10
    [letter (n / 0x40), letter (n % 0x40), '=', '=']
  | [a, b] =>
    let n := (a.toNat * 0x100 + b.toNat) * 0x4
    [letter (n / 0x1000), letter (n / 0x40 % 0x40), letter (n % 0x40), '=']
  | a :: b :: c :: rest =>
    let n := (a.toNat * 0x100 + b.toNat) * 0x100 + c.toNat
    letter (n / 0x40000) :: letter (n / 0x1000 % 0x40) :: letter (n / 0x40 % 0x40) ::
      letter (n % 0x40) :: encode rest

-- The bits that the padding leaves over must be zero.
def decodeLast? : Char → Char → Char → Option (List UInt8)
  | p, q, '=' => do
    let n := (← value? p) * 0x40 + (← value? q)
    if n % 0x10 = 0 then some [UInt8.ofNat (n / 0x10)] else none
  | p, q, r => do
    let n := ((← value? p) * 0x40 + (← value? q)) * 0x40 + (← value? r)
    if n % 0x4 = 0 then some [UInt8.ofNat (n / 0x400), UInt8.ofNat (n / 0x4 % 0x100)] else none

def decode? (text : List Char) : Option (List UInt8) :=
  go [] text
where
  go (decoded : List UInt8) : List Char → Option (List UInt8)
    | [] => some decoded.reverse
    | [p, q, r, '='] => (decodeLast? p q r).map (decoded.reverse ++ ·)
    | p :: q :: r :: s :: rest => do
      let n := (((← value? p) * 0x40 + (← value? q)) * 0x40 + (← value? r)) * 0x40 + (← value? s)
      go (UInt8.ofNat (n % 0x100) :: UInt8.ofNat (n / 0x100 % 0x100) :: UInt8.ofNat (n / 0x10000) ::
        decoded) rest
    | _ => none

end Entitlement.Base64
