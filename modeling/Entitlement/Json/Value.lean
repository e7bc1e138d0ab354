import Entitlement.Fields
import Entitlement.Json.Number
import Entitlement.Json.Raw
/-!
JSON values. An object has its members in ascending order of their names, and of several members
with one name it has the last.
-/

namespace Entitlement

open Json in
inductive Json where
  | null
  | bool (value : Bool)
  | number (value : Number)
  | string (value : String)
  | array (items : List Json)
  | object (fields : List (String × Json))

namespace Json

def maxDepth : Nat := 127

def textOf? (body : List Char) : Option String :=
  (Escape.decode? body).map String.ofList

def rawText (text : String) : List Char :=
  Escape.encode text.toList

mutual

-- Up to `depth` containers may lie inside each other.
def ofRaw? (depth : Nat) : Raw → Option Json
  | .null => some .null
  | .bool value => some (.bool value)
  | .number numeral => (Number.ofNumeral? numeral).map .number
  | .string body => (textOf? body).map .string
  | .array items =>
    match depth with
    | 0 => none
    | depth + 1 => (itemsOfRaw? depth items).map .array
  | .object members =>
    match depth with
    | 0 => none
    | depth + 1 => (membersOfRaw? depth members).map fun members => .object (Fields.ofList members)

def itemsOfRaw? (depth : Nat) : List Raw → Option (List Json)
  | [] => some []
  | first :: rest => do return (← ofRaw? depth first) :: (← itemsOfRaw? depth rest)

def membersOfRaw? (depth : Nat) : List (List Char × Raw) → Option (List (String × Json))
  | [] => some []
  | (name, first) :: rest => do
    return (← textOf? name, ← ofRaw? depth first) :: (← membersOfRaw? depth rest)

end

mutual

def toRaw : Json → Raw
  | null => .null
  | bool value => .bool value
  | number value => .number value.numeral
  | string value => .string (rawText value)
  | array items => .array (itemsToRaw items)
  | object fields => .object (fieldsToRaw fields)

def itemsToRaw : List Json → List Raw
  | [] => []
  | first :: rest => toRaw first :: itemsToRaw rest

def fieldsToRaw : List (String × Json) → List (List Char × Raw)
  | [] => []
  | (name, first) :: rest => (rawText name, toRaw first) :: fieldsToRaw rest

end

def parse? (text : String) : Option Json :=
  (Raw.parse? text.toList).bind (ofRaw? maxDepth)

def compact (value : Json) : String :=
  String.ofList value.toRaw.compact

def ofInt (n : Int) (fits : FitsWord n) : Json :=
  .number (.integer n fits)

end Json
end Entitlement
