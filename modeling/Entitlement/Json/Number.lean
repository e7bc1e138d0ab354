import Entitlement.Decimal.Shortest
import Entitlement.Json.Numeral
/-!
The values of JSON numbers. Whole numbers of 64 bits are exact; all others are doubles, and a
numeral too large for a double has no value.
-/

namespace Entitlement.Json

def FitsWord (n : Int) : Prop :=
  -0x8000000000000000 ≤ n ∧ n < 0x10000000000000000

instance (n : Int) : Decidable (FitsWord n) :=
  inferInstanceAs (Decidable (_ ∧ _))

inductive Number where
  | integer (value : Int) (fits : FitsWord value)
  | double (value : Float)

namespace Number

def maxWord : Nat := 0xFFFFFFFFFFFFFFFF

def digit (c : Char) : Nat :=
  c.toNat - '0'.toNat

-- As many leading digits as fit a word, and the number of digits left out.
def leading (digits : List Char) : Nat × Nat :=
  digits.foldl (fun (n, dropped) c =>
    if dropped > 0 || n * 10 + digit c > maxWord then (n, dropped + 1)
    else (n * 10 + digit c, 0)) (0, 0)

-- Digits after the point go on filling the word, each one place further down, until one does not
-- fit.
def withFraction (n : Nat) (places : Int) (digits : List Char) : Nat × Int :=
  let (n, places, _) := digits.foldl (fun (n, places, full) c =>
    if full || n * 10 + digit c > maxWord then (n, places, true)
    else (n * 10 + digit c, places - 1, false)) (n, places, false)
  (n, places)

def powerOfTen (k : Nat) : Float :=
  Float.ofScientific 1 false k

-- Divides by the largest power of ten again and again; a result of zero is final.
def sink : (steps : Nat) → Float → Float
  | 0, x => x
  | steps + 1, x => if x == 0 then x else sink steps (x / powerOfTen 308)

def dividedByTen (x : Float) (k : Nat) : Float :=
  let steps := (k - 1) / 308
  sink steps x / powerOfTen (k - 308 * steps)

-- `n · 10^k` with one rounding for the word and one for each power. This can be one unit away from
-- the nearest double.
def scaled? (n : Nat) (k : Int) : Option Float :=
  let x := (UInt64.ofNat n).toFloat
  if k < 0 then some (dividedByTen x k.natAbs)
  else if k ≤ 308 then
    let y := x * powerOfTen k.natAbs
    if y.isInf then none else some y
  else if x == 0 then some x
  else none

def maxExponent : Nat := 0x7FFFFFFF

def exponent (e : Exponent) : Int :=
  let n : Int := Nat.ofDigitChars 10 e.digits 0
  if e.sign = some '-' then -n else n

def magnitude? (numeral : Numeral) : Option Float :=
  let (n, dropped) := leading numeral.whole
  let (n, places) := withFraction n dropped (numeral.fraction.getD [])
  match numeral.exponent with
  | none => scaled? n places
  | some e =>
    if (exponent e).natAbs ≤ maxExponent then scaled? n (places + exponent e)
    else if n ≠ 0 && exponent e > 0 then none
    else some 0

def double? (numeral : Numeral) : Option Number :=
  (magnitude? numeral).map fun x => .double (if numeral.negative then -x else x)

-- A negative zero is no whole number.
def integer? (numeral : Numeral) : Option Number :=
  let n : Int := Nat.ofDigitChars 10 numeral.whole 0
  let n := if numeral.negative then -n else n
  if h : FitsWord n then
    if numeral.fraction.isSome || numeral.exponent.isSome || (numeral.negative && n = 0) then none
    else some (.integer n h)
  else none

def ofNumeral? (numeral : Numeral) : Option Number :=
  (integer? numeral).orElse fun _ => double? numeral

def wholeNumeral (n : Int) : Numeral :=
  ⟨n < 0, Nat.toDigits 10 n.natAbs, none, none⟩

-- Positional from 10^-5 up to below 10^16 with at least one decimal, else with a signed power of
-- ten.
def positional (negative : Bool) (digits : List Char) (k : Int) : Numeral :=
  if k < 0 then ⟨negative, ['0'], some (List.replicate (k.natAbs - 1) '0' ++ digits), none⟩
  else
    let whole := k.natAbs + 1
    let padded := digits ++ List.replicate (whole + 1 - digits.length) '0'
    ⟨negative, padded.take whole, some (padded.drop whole), none⟩

def withPower (negative : Bool) (digits : List Char) (k : Int) : Numeral :=
  let exponent := ⟨'e', some (if k < 0 then '-' else '+'), Nat.toDigits 10 k.natAbs⟩
  ⟨negative, digits.take 1, if digits.length ≤ 1 then none else some (digits.drop 1), some exponent⟩

def doubleNumeral (x : Float) : Numeral :=
  let negative := x.toBits ≥ 0x8000000000000000
  if x == 0 then ⟨negative, ['0'], some ['0'], none⟩
  else
    let (digits, k) := (Decimal.ofFloat x).scientific
    if -5 ≤ k ∧ k < 16 then positional negative digits k else withPower negative digits k

def numeral : Number → Numeral
  | integer n _ => wholeNumeral n
  | double x => doubleNumeral x

end Number
end Entitlement.Json
