import Entitlement.Session
/-!
Looking at identities without a session: a single one, all of them, or the tokens of a user.
-/

namespace Entitlement.Directory

structure Entry where
  record : Record
  remaining : Store.Lifetime

def lookup (token : String) (refresh : Bool) : Script (Except AccessError Entry) := do
  let config : Config := { connected := true, settings := { refreshOnLoad := refresh } }
  match Session.create token config with
  | .error error => return .error error
  | .ok session => return (← Session.perform entry session).1
where
  entry : Action Entry := do
    Session.load
    let session ← get
    let remaining ←
      if session.refreshOnLoad then pure (.seconds session.lifetime) else Session.remaining
    return ⟨← Session.intoRecord, remaining⟩

def ask (command : Command) : ExceptT AccessError Script command.Reply := do
  match ← (Script.ask command : Script _) with
  | .ok reply => return reply
  | .error cause => throw (.store command.name cause)

-- What lies under a key, if it can be read as a record.
def recordAt? (key : String) : Script (Option Record) := do
  match ← Script.ask (.get key) with
  | .ok (some bytes) => return Record.decode? bytes
  | _ => return none

-- Keys that hold no readable record are left out; they may have expired since they were listed.
def entries : List String → ExceptT AccessError Script (List Entry)
  | [] => return []
  | key :: rest => do
    match ← (recordAt? key : Script _) with
    | none => entries rest
    | some record =>
      let remaining ← ask (.ttl key)
      return ⟨record, remaining⟩ :: (← entries rest)

def all : ExceptT AccessError Script (List Entry) := do
  let keys ← ask (.keys Key.start)
  entries (keys.filter (!Key.isIndex ·))

def tokensOf (user : String) : ExceptT AccessError Script (List String) :=
  ask (.lrange (Key.index user))

end Entitlement.Directory
