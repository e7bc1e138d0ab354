/-!
Numbers as they are written in JSON: a whole part without leading zeros, then perhaps a fraction
and a power of ten.
-/

namespace Entitlement.Json

structure Exponent where
  letter : Char
  sign : Option Char
  digits : List Char
deriving DecidableEq, Repr

structure Numeral where
  negative : Bool
  whole : List Char
  fraction : Option (List Char)
  exponent : Option Exponent
deriving DecidableEq, Repr

namespace Numeral

def text (numeral : Numeral) : List Char :=
  sign ++ numeral.whole ++ fraction ++ exponent
where
  sign := if numeral.negative then ['-'] else []
  fraction := numeral.fraction.elim [] ('.' :: ·)
  exponent := numeral.exponent.elim [] fun e => e.letter :: e.sign.toList ++ e.digits

def digits (cs : List Char) : List Char :=
  cs.takeWhile Char.isDigit

def afterDigits (cs : List Char) : List Char :=
  cs.dropWhile Char.isDigit

def someDigits? (cs : List Char) : Option (List Char) :=
  if digits cs = [] then none else some (digits cs)

def whole? (cs : List Char) : Option (List Char) :=
  match digits cs with
  | [] => none
  | '0' :: _ :: _ => none
  | ds => some ds

def readExponent? : List Char → Option (Option Exponent)
  | c :: cs =>
    if c = 'e' || c = 'E' then
      let (sign, rest) := readSign cs
      (someDigits? rest).map fun ds => some ⟨c, sign, ds⟩
    else some none
  | [] => some none
where
  readSign : List Char → Option Char × List Char
    | '+' :: cs => (some '+', cs)
    | '-' :: cs => (some '-', cs)
    | cs => (none, cs)

def readUnsigned? (negative : Bool) (cs : List Char) : Option Numeral := do
  let whole ← whole? cs
  match afterDigits cs with
  | '.' :: rest =>
    let fraction ← someDigits? rest
    return ⟨negative, whole, some fraction, ← readExponent? (afterDigits rest)⟩
  | rest => return ⟨negative, whole, none, ← readExponent? rest⟩

-- The longest numeral at the start of a text. There is none where a part of it is missing, as in
-- "1." or "1e".
def read? : List Char → Option Numeral
  | '-' :: cs => readUnsigned? true cs
  | cs => readUnsigned? false cs

end Numeral
end Entitlement.Json
