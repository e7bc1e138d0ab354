import Entitlement.Grant.Blob
import Entitlement.Grant.Compaction
import Entitlement.Json.Reader
/-!
What is kept of an identity: its user with the list of active permissions, the full list they were
taken from, and any other fields. The other fields of a record stand beside its own ones in one JSON
object.
-/

namespace Entitlement

open Json (Raw)

structure User where
  id : String
  perms : String
  extra : Fields Json

structure Record where
  uid : String
  user : User
  full? : Option String
  extra : Fields Json

namespace User

def ownNames : List String := ["id", "perms"]

end User

namespace Record

def ownNames : List String := ["uid", "user", "fullperms"]

-- The members without those of the given names, as fields.
def extraOf? (depth : Nat) (own : List String) (members : List (String × Raw)) :
    Option (Fields Json) := do
  let others ← (members.filter fun member => !own.contains member.1).mapM fun (name, tree) => do
    return (name, ← Json.ofRaw? depth tree)
  return Fields.ofList others

def userOfRaw? (depth : Nat) : Raw → Option User
  | .object members => do
    let members ← Raw.named? members
    return {
      id := ← (← Raw.required? "id" members).text?
      perms := ← (← Raw.required? "perms" members).text?
      extra := ← extraOf? depth User.ownNames members }
  | _ => none

-- A record without a token has an empty one.
def ofRaw? : Raw → Option Record
  | .object members => do
    let members ← Raw.named? members
    let uid ← Raw.member? "uid" members
    let full ← Raw.member? "fullperms" members
    return {
      uid := ← uid.elim (some "") Raw.text?
      user := ← userOfRaw? (Json.maxDepth - 2) (← Raw.required? "user" members)
      full? := ← full.elim (some none) (Raw.orNull? Raw.text?)
      extra := ← extraOf? (Json.maxDepth - 1) ownNames members }
  | _ => none

def userToRaw (user : User) : Raw :=
  .object (Raw.named "id" (.ofText user.id) :: Raw.named "perms" (.ofText user.perms) ::
    Json.fieldsToRaw user.extra)

def toRaw (record : Record) : Raw :=
  .object (Raw.named "uid" (.ofText record.uid) :: Raw.named "user" (userToRaw record.user) ::
    (record.full?.map fun full => Raw.named "fullperms" (.ofText full)).toList ++
    Json.fieldsToRaw record.extra)

def parse? (text : String) : Option Record :=
  (Raw.parse? text.toList).bind ofRaw?

def text (record : Record) : String :=
  String.ofList record.toRaw.compact

def decode? (bytes : ByteArray) : Option Record :=
  (String.fromUTF8? bytes).bind parse?

def encode (record : Record) : ByteArray :=
  record.text.toUTF8

-- The record of a user who holds these grants and may use all of them.
def create (user : String) (grants : List Grant) : Record where
  uid := ""
  user := ⟨user, Blob.encode (compacted grants), []⟩
  full? := none
  extra := []

def withField (record : Record) (name : String) (value : Json) : Record :=
  { record with extra := record.extra.insert name value }

-- The full list; without one of its own the active list counts as full.
def full (record : Record) : String :=
  record.full?.getD record.user.perms

end Record
end Entitlement
