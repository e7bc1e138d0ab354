import Entitlement.Store
/-!
The commands of a cache as data, and what a cache replies to them.
-/

namespace Entitlement

inductive Command where
  | get (key : String)
  | setex (key : String) (ttl : UInt64) (data : ByteArray)
  | expire (key : String) (ttl : UInt64)
  | persist (key : String)
  | delete (key : String)
  | ttl (key : String)
  | lpush (key value : String)
  | lrem (key : String) (count : Int64) (value : String)
  | lrange (key : String)
  | keys (start : String)

namespace Command

abbrev Reply : Command → Type
  | get _ => Option ByteArray
  | setex .. => Unit
  | expire .. | persist _ | delete _ => Bool
  | ttl _ => Store.Lifetime
  | lpush .. | lrem .. => Nat
  | lrange _ | keys _ => List String

def name : Command → String
  | get _ => "get"
  | setex .. => "setex"
  | expire .. => "expire"
  | persist _ => "persist"
  | delete _ => "delete"
  | ttl _ => "ttl"
  | lpush .. => "lpush"
  | lrem .. => "lrem"
  | lrange _ => "lrange"
  | keys _ => "keys"

-- The key that a command is about, or the start of the keys.
def key : Command → String
  | get key | setex key .. | expire key _ | persist key | delete key | ttl key | lpush key _
  | lrem key .. | lrange key | keys key => key

end Command

namespace Store

def reply (store : Store) (now : Instant) : (command : Command) →
    Except StoreError command.Reply × Store
  | .get key => (store.get now key, store)
  | .setex key ttl data => (.ok (), store.setex now key ttl data)
  | .expire key ttl => (store.expire now key ttl).map .ok id
  | .persist key => (store.persist now key).map .ok id
  | .delete key => (store.delete now key).map .ok id
  | .ttl key => (.ok (store.ttl now key), store)
  | .lpush key value => store.lpush now key value
  | .lrem key count value => store.lrem now key count value
  | .lrange key => (store.lrange now key, store)
  | .keys start => (.ok (store.keys now start), store)

end Store
end Entitlement
