import Entitlement.Json.Reader
import Entitlement.Store
/-!
A cache as a file: a JSON object of its live slots. Files of other versions are refused as soon as
the version is read, whatever comes after it.
-/

namespace Entitlement

open Json (Raw)

-- What a path of the file system leads to.
inductive Place where
  | absent
  | directory
  | file (content : ByteArray)

namespace Snapshot

inductive Fault where
  | malformed
  | version (n : Nat)
deriving DecidableEq, Repr

def version : Nat := 0

def Fault.error : Fault → StoreError
  | malformed => .unreadable none
  | .version n => .unreadable <| some <|
    "unsupported persistence version " ++ toString n ++ "; only version " ++
      toString Snapshot.version ++ " is supported"

def orMalformed : Option α → Except Fault α
  | some value => .ok value
  | none => .error .malformed

def bytes? (tree : Raw) : Option Store.Value :=
  (tree.list? Raw.byte?).map fun bytes => .bytes ⟨bytes.toArray⟩

def list? (tree : Raw) : Option Store.Value :=
  (tree.list? Raw.text?).map .list

def valueOf? (kind : String) (data : Raw) : Option Store.Value :=
  match kind with
  | "bytes" => bytes? data
  | "list" => list? data
  | _ => none

-- A kind is its name, or an object that holds nothing but null under that name.
def kind? : Raw → Option String
  | .object [(name, .null)] => Json.textOf? name
  | tree => tree.text?

-- A value with its kind, as an object or as an array of both. In an array only the plain name of
-- a kind counts.
def value? : Raw → Option Store.Value
  | .array [kind, data] => do valueOf? (← kind.text?) data
  | .object members => do
    let members ← Raw.named? members
    valueOf? (← kind? (← Raw.required? "kind" members)) (← Raw.required? "data" members)
  | _ => none

def deadline? (tree : Raw) : Option (Option Instant) :=
  tree.orNull? Raw.uint64?

def slot? : Raw → Option Store.Slot
  | .array [value] => do return ⟨← value? value, none⟩
  | .array [value, deadline] => do return ⟨← value? value, ← deadline? deadline⟩
  | .object members => do
    let members ← Raw.named? members
    let value ← Raw.required? "value" members
    let deadline ← Raw.member? "expires_at" members
    return ⟨← value? value, ← deadline.elim (some none) deadline?⟩
  | _ => none

def slots? : Raw → Option (List (String × Store.Slot))
  | .object members => do
    (← Raw.named? members).mapM fun (key, tree) => do return (key, ← slot? tree)
  | _ => none

def checkVersion (tree : Raw) : Except Fault Unit := do
  let n ← orMalformed tree.byte?
  if n.toNat = version then return () else throw (.version n.toNat)

-- What was read of the members so far: whether there was a version, and the slots.
structure Progress where
  versioned : Bool
  slots : Option (List (String × Store.Slot))

def readMember (progress : Progress) (name : String) (tree : Raw) : Except Fault Progress :=
  if name = "_v" then
    if progress.versioned then throw .malformed
    else do
      checkVersion tree
      return { progress with versioned := true }
  else if name = "slots" then
    if progress.slots.isSome then throw .malformed
    else return { progress with slots := some (← orMalformed (slots? tree)) }
  else return progress

-- Members are taken in their order, so that the first fault is the one that counts.
def readMembers : Progress → List (List Char × Raw) → Except Fault Progress
  | progress, [] => return progress
  | progress, (name, tree) :: rest => do
    let name ← orMalformed (Json.textOf? name)
    readMembers (← readMember progress name tree) rest

def readItems : List Raw → Except Fault Progress
  | [] => return ⟨false, none⟩
  | [version] => do
    checkVersion version
    return ⟨true, none⟩
  | [version, slots] => do
    checkVersion version
    return ⟨true, some (← orMalformed (slots? slots))⟩
  | version :: _ => do
    checkVersion version
    throw .malformed

def readTree : Raw → Except Fault Progress
  | .object members => readMembers ⟨false, none⟩ members
  | .array items => readItems items
  | _ => throw .malformed

def read (text : String) : Except Fault (List (String × Store.Slot)) := do
  let parsed := Raw.parse text.toList
  let progress ← readTree parsed.tree
  if parsed.complete then orMalformed progress.slots else throw .malformed

-- A place without a file counts as an empty cache. Slots that have expired by now are left out.
def load (place : Place) (now : Instant) : Except StoreError Store :=
  match place with
  | .absent => .ok .empty
  | .directory => .error .fileIo
  | .file content =>
    match String.fromUTF8? content with
    | none => .error .fileIo
    | some text =>
      match read text with
      | .error fault => .error fault.error
      | .ok slots => .ok ((Store.ofList slots).swept now)

def bytesToRaw (data : ByteArray) : Raw :=
  .array (data.data.toList.map fun byte => .number (Json.Number.wholeNumeral byte.toNat))

def valueToRaw : Store.Value → Raw
  | .bytes data => .object [Raw.named "kind" (.ofText "bytes"), Raw.named "data" (bytesToRaw data)]
  | .list items =>
    .object [Raw.named "kind" (.ofText "list"), Raw.named "data" (.array (items.map .ofText))]

def slotToRaw (slot : Store.Slot) : Raw :=
  .object (Raw.named "value" (valueToRaw slot.value) ::
    (slot.deadline?.map fun deadline => Raw.named "expires_at" (.word deadline)).toList)

def toRaw (slots : List (String × Store.Slot)) : Raw :=
  .object [Raw.named "slots" <| .object <|
    slots.map fun (key, slot) => Raw.named key (slotToRaw slot)]

def textOf (slots : List (String × Store.Slot)) : String :=
  String.ofList ((toRaw slots).pretty 0)

def write (text : String) : Place → Except StoreError Place
  | .directory => .error .fileIo
  | _ => .ok (.file text.toUTF8)

-- Slots that have expired by now are left out. The others stand in the order of their keys, though
-- any order of them would be loaded as well.
def text (store : Store) (now : Instant) : String :=
  textOf (store.live now)

def save (store : Store) (now : Instant) (place : Place) : Except StoreError Place :=
  write (text store now) place

end Snapshot
end Entitlement
