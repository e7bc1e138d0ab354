import Entitlement.Error
import Entitlement.Grant
import Entitlement.Json.Reader
/-!
A grant as a JSON row of seven fields. `ofRaw?` reads just what `toRaw` writes, up to spelling;
`ofJson` reads a row that was already parsed, takes numbers that are written as texts too and says
what is wrong with a row.
-/

namespace Entitlement.Grant

def toRaw (grant : Grant) : Json.Raw :=
  .array [
    integer grant.id, integer grant.objectId, .ofText grant.objectType, .ofText grant.definition,
    .ofText grant.path, integer grant.level, .ofText grant.action]
where
  integer (n : Int64) : Json.Raw := .number (Json.Number.wholeNumeral n.toInt)

def ofRaw? : Json.Raw → Option Grant
  | .array [id, objectId, objectType, definition, path, level, action] => do
    return {
      id := ← id.int64?
      objectId := ← objectId.int64?
      objectType := ← objectType.text?
      definition := ← definition.text?
      path := ← path.text?
      level := ← level.int64?
      action := ← action.text? }
  | _ => none

def written (grant : Grant) : String :=
  String.ofList grant.toRaw.compact

def ofText? (text : String) : Option Grant :=
  (Json.Raw.parse? text.toList).bind ofRaw?

theorem fits_int64 (n : Int64) : Json.FitsWord n.toInt :=
  ⟨n.le_toInt, Int.lt_of_lt_of_le n.toInt_lt (by decide)⟩

def toJson (grant : Grant) : Json :=
  .array [
    integer grant.id, integer grant.objectId, .string grant.objectType, .string grant.definition,
    .string grant.path, integer grant.level, .string grant.action]
where
  integer (n : Int64) : Json := .ofInt n.toInt (fits_int64 n)

def int64OfInt? (n : Int) : Option Int64 :=
  if -0x8000000000000000 ≤ n ∧ n < 0x8000000000000000 then some (Int64.ofInt n) else none

-- A sign and at least one digit.
def int64OfText? (text : String) : Option Int64 :=
  match text.toList with
  | '+' :: digits => (natOfDigits? digits).bind fun n => int64OfInt? n
  | '-' :: digits => (natOfDigits? digits).bind fun n => int64OfInt? (-n)
  | digits => (natOfDigits? digits).bind fun n => int64OfInt? n
where
  natOfDigits? (digits : List Char) : Option Nat :=
    if digits ≠ [] ∧ digits.all Char.isDigit then some (Nat.ofDigitChars 10 digits 0) else none

def rowInt? : Json → Option Int64
  | .number (.integer n _) => int64OfInt? n
  | .string text => int64OfText? text
  | _ => none

def rowText? : Json → Option String
  | .string text => some text
  | _ => none

def rowField (read : Json → Option α) (expected : String) (index : Nat) (field : Json) :
    Except AccessError α :=
  match read field with
  | some value => .ok value
  | none => .error <| .malformedGrant <|
    "field " ++ toString index ++ " is not " ++ expected ++ ": " ++ field.compact

def ofFields : List Json → Except AccessError Grant
  | [id, objectId, objectType, definition, path, level, action] => do
    let integer := rowField rowInt? "an integer"
    let text := rowField rowText? "a string"
    return {
      id := ← integer 0 id
      objectId := ← integer 1 objectId
      objectType := ← text 2 objectType
      definition := ← text 3 definition
      path := ← text 4 path
      level := ← integer 5 level
      action := ← text 6 action }
  | fields => .error (.malformedGrant ("expected 7 fields, got " ++ toString fields.length))

def ofJson : Json → Except AccessError Grant
  | .array fields => ofFields fields
  | value => .error (.malformedGrant ("expected an array, got " ++ value.compact))

end Entitlement.Grant
