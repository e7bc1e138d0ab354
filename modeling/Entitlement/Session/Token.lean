import Entitlement.Text.Hex
/-!
Tokens made of random bits, in the form of version 4 identifiers: thirty-two hexadecimal digits in
five groups, of which one digit tells the version and two bits of another one the variant.
-/

namespace Entitlement.Token

open Text (hexDigit)

-- The last `width` hexadecimal digits.
def hex (width n : Nat) : List Char :=
  (List.range width).reverse.map fun i => hexDigit (n / Nat.pow 16 i % 16)

def isHexDigit (c : Char) : Bool :=
  c.isDigit || ('a' ≤ c && c ≤ 'f')

-- Of the bits only those without a fixed meaning count.
def ofBits (bits : Nat) : String :=
  let group (width shift : Nat) := hex width (bits / Nat.pow 16 shift)
  String.ofList <|
    group 8 24 ++ '-' :: group 4 20 ++ '-' :: '4' :: group 3 16 ++
    '-' :: hexDigit (8 + bits / Nat.pow 16 15 % 4) :: group 3 12 ++ '-' :: group 12 0

def isVersion4 (token : String) : Bool :=
  match token.toList.splitOnP (· = '-') with
  | [a, b, c, d, e] =>
    [a, b, c, d, e].all (·.all isHexDigit) && [a, b, c, d, e].map List.length = [8, 4, 4, 4, 12] &&
      c.head? = some '4' && d.head?.any ("89ab".contains ·)
  | _ => false

end Entitlement.Token
