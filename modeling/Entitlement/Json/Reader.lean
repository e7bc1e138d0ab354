import Entitlement.Json.Value
/-!
Reading values of a known type from a tree of JSON words. The members of a structure may come in
any order; a member that the structure does not have is passed over whatever its value is, and one
that it has must not come twice.
-/

namespace Entitlement.Json.Raw

def integer? : Raw → Option Int
  | .number numeral =>
    match Number.ofNumeral? numeral with
    | some (.integer n _) => some n
    | _ => none
  | _ => none

def integerIn? (least greatest : Int) (tree : Raw) : Option Int :=
  tree.integer?.bind fun n => if least ≤ n ∧ n ≤ greatest then some n else none

def int64? (tree : Raw) : Option Int64 :=
  (tree.integerIn? (-0x8000000000000000) 0x7FFFFFFFFFFFFFFF).map Int64.ofInt

def uint64? (tree : Raw) : Option UInt64 :=
  (tree.integerIn? 0 0xFFFFFFFFFFFFFFFF).map fun n => UInt64.ofNat n.toNat

def byte? (tree : Raw) : Option UInt8 :=
  (tree.integerIn? 0 255).map fun n => UInt8.ofNat n.toNat

def bool? : Raw → Option Bool
  | .bool value => some value
  | _ => none

def text? : Raw → Option String
  | .string body => textOf? body
  | _ => none

def list? (read : Raw → Option α) : Raw → Option (List α)
  | .array items => items.mapM read
  | _ => none

-- Null stands for no value.
def orNull? (read : Raw → Option α) : Raw → Option (Option α)
  | .null => some none
  | tree => (read tree).map some

-- A member as it is written.
def named (name : String) (tree : Raw) : List Char × Raw :=
  (rawText name, tree)

-- Object members with the texts of their names.
def named? : List (List Char × Raw) → Option (List (String × Raw))
  | [] => some []
  | (name, tree) :: rest => do return (← textOf? name, tree) :: (← named? rest)

-- The values under a name.
def valuesOf (name : String) (members : List (String × Raw)) : List Raw :=
  (members.filter (·.1 = name)).map Prod.snd

-- The outer option fails on a second member of the name, the inner one is empty without any.
def member? (name : String) (members : List (String × Raw)) : Option (Option Raw) :=
  match valuesOf name members with
  | [] => some none
  | [tree] => some (some tree)
  | _ => none

def required? (name : String) (members : List (String × Raw)) : Option Raw :=
  (member? name members).join

def word (n : UInt64) : Raw :=
  .number (Number.wholeNumeral n.toNat)

def ofText (text : String) : Raw :=
  .string (rawText text)

end Entitlement.Json.Raw
