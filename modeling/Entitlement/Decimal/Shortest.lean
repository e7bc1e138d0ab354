/-!
The fewest decimal digits that single out a binary floating-point number. A positive number m·2^q
is read back from every decimal between its neighbours' midpoints; of the decimals with the fewest
digits in there the nearest one is taken, and of two equally near ones that with the even digit.
-/

namespace Entitlement

-- A positive number `digits · 10^exponent`.
structure Decimal where
  digits : Nat
  exponent : Int
deriving DecidableEq, Repr

namespace Decimal

-- The fractions `lower / denominator` and `upper / denominator` are the ends of what reads back as
-- `middle / denominator`; they read back themselves if `closed`.
structure Neighbourhood where
  lower : Nat
  middle : Nat
  upper : Nat
  denominator : Nat
  closed : Bool
deriving DecidableEq, Repr

namespace Neighbourhood

-- The half-way points of m·2^q. The number below is nearer where m is the least mantissa of its
-- binade.
def of (m : Nat) (q : Int) (nearerBelow : Bool) : Neighbourhood :=
  let up := Nat.pow 2 (q - 2).toNat
  { lower := (4 * m - (if nearerBelow then 1 else 2)) * up
    middle := 4 * m * up
    upper := (4 * m + 2) * up
    denominator := Nat.pow 2 (2 - q).toNat
    closed := m % 2 = 0 }

-- Both sides of a comparison with `n · 10^k`, multiplied out.
def gridPoint (around : Neighbourhood) (k : Int) (n : Nat) : Nat :=
  n * Nat.pow 10 k.toNat * around.denominator

def scaled (k : Int) (bound : Nat) : Nat :=
  bound * Nat.pow 10 (-k).toNat

def holds (around : Neighbourhood) (k : Int) (n : Nat) : Bool :=
  let point := around.gridPoint k n
  let lower := scaled k around.lower
  let upper := scaled k around.upper
  if around.closed then lower ≤ point && point ≤ upper else lower < point && point < upper

-- The grid point of `10^k` to take, if one reads back. None further away than the two around the
-- middle need be tried.
def pick? (around : Neighbourhood) (k : Int) : Option Nat :=
  let middle := scaled k around.middle
  let unit := around.gridPoint k 1
  let below := middle / unit
  match around.holds k below, around.holds k (below + 1) with
  | false, false => none
  | true, false => some below
  | false, true => some (below + 1)
  | true, true =>
    let down := middle - below * unit
    let up := (below + 1) * unit - middle
    if down < up then some below
    else if up < down then some (below + 1)
    else some (if below % 2 = 0 then below else below + 1)

-- The power of ten of the first digit, for numbers from 10^-340 on.
def magnitude (around : Neighbourhood) : Int :=
  (Nat.toDigits 10 (around.middle * Nat.pow 10 340 / around.denominator)).length - 341

-- Grids are tried from coarse to fine; seventeen digits always suffice.
def search (around : Neighbourhood) : (grids : Nat) → Int → Decimal
  | 0, k => ⟨scaled k around.middle / around.gridPoint k 1, k⟩
  | grids + 1, k =>
    match around.pick? k with
    | some n => ⟨n, k⟩
    | none => search around grids (k - 1)

end Neighbourhood

def shortest (m : Nat) (q : Int) (nearerBelow : Bool) : Decimal :=
  let around := Neighbourhood.of m q nearerBelow
  around.search 17 around.magnitude

-- The digits of a decimal without the zeros at their end, and the power of ten of the first one.
def scientific (d : Decimal) : List Char × Int :=
  let digits := Nat.toDigits 10 d.digits
  ((digits.reverse.dropWhile (· = '0')).reverse, digits.length - 1 + d.exponent)

-- Mantissa, binary exponent and the sign of the gap below, for a finite number other than zero.
def ofFloat (x : Float) : Decimal :=
  let bits := x.toBits.toNat
  let biased : Nat := bits / 0x10000000000000 % 0x800
  let fraction := bits % 0x10000000000000
  if biased = 0 then shortest fraction (-1074) false
  else shortest (fraction + 0x10000000000000) ((biased : Int) - 1075) (fraction = 0 && 1 < biased)

end Decimal
end Entitlement
