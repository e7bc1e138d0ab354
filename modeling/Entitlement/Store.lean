import Entitlement.Error
import Entitlement.Fields
/-!
A cache of byte values and string lists under keys, each with a deadline or without one. A slot
whose deadline has passed counts as absent everywhere; it is only taken out when a command that
changes its key comes across it.
-/

namespace Entitlement

-- Milliseconds since the start of 1970.
abbrev Instant := UInt64

namespace Store

inductive Value where
  | bytes (data : ByteArray)
  | list (items : List String)

structure Slot where
  value : Value
  deadline? : Option Instant

def Slot.isExpired (slot : Slot) (now : Instant) : Bool :=
  slot.deadline?.any (· ≤ now)

-- How long a key will stay.
inductive Lifetime where
  | missing
  | permanent
  | seconds (n : UInt64)
deriving DecidableEq, Repr

def Lifetime.code : Lifetime → Int64
  | missing => -2
  | permanent => -1
  | seconds n => n.toInt64

-- Seconds from now on, at most the last instant there is.
def deadline (now : Instant) (seconds : UInt64) : Instant :=
  UInt64.ofNat (min (now.toNat + 1000 * seconds.toNat) (UInt64.size - 1))

-- Whole seconds, a begun one counted in full.
def secondsUntil (now deadline : Instant) : UInt64 :=
  UInt64.ofNat ((deadline.toNat - now.toNat + 999) / 1000)

end Store

structure Store where
  slots : Fields Store.Slot
  ascending : slots.Ascending

namespace Store

def empty : Store := ⟨[], List.Pairwise.nil⟩

instance : Inhabited Store := ⟨empty⟩

def insert (store : Store) (key : String) (slot : Slot) : Store :=
  ⟨store.slots.insert key slot, Fields.insert_ascending store.ascending key slot⟩

def erase (store : Store) (key : String) : Store :=
  ⟨store.slots.erase key, Fields.erase_ascending store.ascending key⟩

def ofList (entries : List (String × Slot)) : Store :=
  ⟨Fields.ofList entries, Fields.ofList_ascending entries⟩

def find? (store : Store) (key : String) : Option Slot :=
  store.slots.find? key

def live? (store : Store) (now : Instant) (key : String) : Option Slot :=
  (store.find? key).filter fun slot => !slot.isExpired now

def live (store : Store) (now : Instant) : Fields Slot :=
  store.slots.filter fun entry => !entry.2.isExpired now

-- Takes out all slots that have expired.
def swept (store : Store) (now : Instant) : Store :=
  ⟨store.live now, store.ascending.filter _⟩

-- Takes out the slot of a key if it has expired.
def settle (store : Store) (now : Instant) (key : String) : Store :=
  if (store.find? key).any (·.isExpired now) then store.erase key else store

def wantsString (key : String) : StoreError := .wrongType key "string"

def wantsList (key : String) : StoreError := .wrongType key "list"

def get (store : Store) (now : Instant) (key : String) : Except StoreError (Option ByteArray) :=
  match store.live? now key with
  | none => .ok none
  | some ⟨.bytes data, _⟩ => .ok (some data)
  | some ⟨.list _, _⟩ => .error (wantsString key)

def setex (store : Store) (now : Instant) (key : String) (ttl : UInt64) (data : ByteArray) :
    Store :=
  store.insert key ⟨.bytes data, some (deadline now ttl)⟩

-- No time to live means the end of the key.
def expire (store : Store) (now : Instant) (key : String) (ttl : UInt64) : Bool × Store :=
  let store := store.settle now key
  match store.find? key with
  | none => (false, store)
  | some slot =>
    if ttl = 0 then (true, store.erase key)
    else (true, store.insert key { slot with deadline? := some (deadline now ttl) })

def persist (store : Store) (now : Instant) (key : String) : Bool × Store :=
  let store := store.settle now key
  match store.find? key with
  | some ⟨value, some _⟩ => (true, store.insert key ⟨value, none⟩)
  | _ => (false, store)

def delete (store : Store) (now : Instant) (key : String) : Bool × Store :=
  ((store.live? now key).isSome, store.erase key)

def ttl (store : Store) (now : Instant) (key : String) : Lifetime :=
  match store.live? now key with
  | none => .missing
  | some ⟨_, none⟩ => .permanent
  | some ⟨_, some deadline⟩ => .seconds (secondsUntil now deadline)

def lpush (store : Store) (now : Instant) (key value : String) : Except StoreError Nat × Store :=
  let store := store.settle now key
  match store.find? key with
  | none => (.ok 1, store.insert key ⟨.list [value], none⟩)
  | some ⟨.list items, deadline?⟩ =>
    (.ok (items.length + 1), store.insert key ⟨.list (value :: items), deadline?⟩)
  | some ⟨.bytes _, _⟩ => (.error (wantsList key), store)

def removeFirst (value : String) : (limit : Nat) → List String → List String
  | _, [] => []
  | 0, items => items
  | limit + 1, item :: rest =>
    if item = value then removeFirst value limit rest
    else item :: removeFirst value (limit + 1) rest

-- Goes through the items from the last one on; `removed` of them are gone so far.
def removeLast (value : String) (limit : Nat) (items : List String) : List String :=
  (items.foldr (fun item (removed, kept) =>
    if removed < limit ∧ item = value then (removed + 1, kept)
    else (removed, item :: kept)) (0, [])).2

-- A positive count removes from the front, a negative one from the back, and zero removes all.
def removed (count : Int64) (value : String) (items : List String) : List String :=
  if count = 0 then removeFirst value items.length items
  else if 0 < count then removeFirst value count.toInt.natAbs items
  else removeLast value count.toInt.natAbs items

def lrem (store : Store) (now : Instant) (key : String) (count : Int64) (value : String) :
    Except StoreError Nat × Store :=
  let store := store.settle now key
  match store.find? key with
  | none => (.ok 0, store)
  | some ⟨.bytes _, _⟩ => (.error (wantsList key), store)
  | some ⟨.list items, deadline?⟩ =>
    let kept := removed count value items
    (.ok (items.length - kept.length),
      if kept = [] then store.erase key else store.insert key ⟨.list kept, deadline?⟩)

def lrange (store : Store) (now : Instant) (key : String) : Except StoreError (List String) :=
  match store.live? now key with
  | none => .ok []
  | some ⟨.list items, _⟩ => .ok items
  | some ⟨.bytes _, _⟩ => .error (wantsList key)

-- In ascending order.
def keys (store : Store) (now : Instant) (start : String) : List String :=
  (store.live now).names.filter (start.isPrefixOf ·)

def size (store : Store) (now : Instant) : Nat :=
  (store.keys now "").length

def isEmpty (store : Store) (now : Instant) : Bool :=
  store.size now = 0

end Store
end Entitlement
