import Entitlement.Base64
import Entitlement.Grant.Row
import Entitlement.Text.Blank
import Entitlement.Zlib.Stream
/-!
A list of grants as one text: the JSON array of their rows, compressed and in base64.
-/

namespace Entitlement.Blob

-- Where a text stops being a list of grants.
inductive Fault where
  | base64
  | stream
  | list
deriving DecidableEq, Repr

def Fault.reason : Fault → String
  | base64 => "invalid base64"
  | stream => "invalid zlib stream"
  | list => "invalid permission list"

def toRaw (grants : List Grant) : Json.Raw :=
  .array (grants.map Grant.toRaw)

def ofRaw? : Json.Raw → Option (List Grant) :=
  Json.Raw.list? Grant.ofRaw?

def rows (grants : List Grant) : String :=
  String.ofList (toRaw grants).compact

-- With any way to compress the rows.
def encodeWith (compress : ByteArray → List UInt8) (grants : List Grant) : String :=
  String.ofList (Base64.encode (compress (rows grants).toUTF8))

def encode (grants : List Grant) : String :=
  encodeWith Zlib.compress grants

def ofRows? (rows : ByteArray) : Option (List Grant) := do
  let text ← String.fromUTF8? rows
  let tree ← Json.Raw.parse? text.toList
  ofRaw? tree

-- Blanks around the text do not matter.
def decode (text : String) : Except Fault (List Grant) :=
  match Base64.decode? (Text.trimmed text.toList) with
  | none => .error .base64
  | some bytes =>
    match Zlib.decompress? bytes with
    | none => .error .stream
    | some rows =>
      match ofRows? rows with
      | none => .error .list
      | some grants => .ok grants

end Entitlement.Blob
