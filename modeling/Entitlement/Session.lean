import Entitlement.Session.Config
import Entitlement.Session.Key
import Entitlement.Session.Record
import Entitlement.Store.Script
/-!
Sessions: one identity under its token, as its holder works on it. A session reads its record from
the cache when it first needs it, keeps it in memory and writes it back when asked to. Operations
are scripts of cache commands; the first command that fails ends an operation, and what was already
done in memory stays.
-/

namespace Entitlement

-- A record in memory, with its two lists of grants once they were decoded.
structure Held where
  record : Record
  active? : Option (List Grant)
  full? : Option (List Grant)
  modified : Bool

namespace Held

-- From here on the full list is kept apart from the active one.
def of (record : Record) (modified : Bool) : Held where
  record := { record with full? := some record.full }
  active? := none
  full? := none
  modified := modified

end Held

inductive Session.State where
  | unloaded
  | held (held : Held)
  | removed

structure Session where
  token : String
  -- in seconds
  lifetime : UInt64
  refreshOnLoad : Bool
  state : Session.State

abbrev Action := ExceptT AccessError (StateT Session Script)

namespace Session

def create (token : String) (config : Config) : Except AccessError Session := do
  config.ensureConnected
  return {
    token
    lifetime := config.lifetime
    refreshOnLoad := config.settings.refreshOnLoad
    state := .unloaded }

def isModified (session : Session) : Bool :=
  match session.state with
  | .held held => held.modified
  | _ => false

def send (command : Command) : Action command.Reply := do
  match ← (Script.ask command : Script _) with
  | .ok reply => return reply
  | .error cause => throw (.store command.name cause)

def setState (state : State) : Action Unit :=
  modify fun session => { session with state }

def decoded (blob : String) : Action (List Grant) :=
  match Blob.decode blob with
  | .ok grants => return grants
  | .error fault => throw (.undecodable fault.reason)

def ensureNotRemoved : Action Unit := do
  let session ← get
  match session.state with
  | .removed => throw (.removed session.token)
  | _ => return ()

-- The record and the index of its user always get the same lifetime.
def expireBoth (user : String) (seconds : UInt64) : Action Unit := do
  let session ← get
  let _ ← send (.expire (Key.record session.token) seconds)
  let _ ← send (.expire (Key.index user) seconds)

def persistBoth (user : String) : Action Unit := do
  let session ← get
  let _ ← send (.persist (Key.record session.token))
  let _ ← send (.persist (Key.index user))

def refreshFor (user : String) (never : Bool) : Action Unit := do
  let session ← get
  if never then persistBoth user else expireBoth user session.lifetime

def malformed : String := "not an identity record"

def fetch (token : String) : Action Record := do
  match ← send (.get (Key.record token)) with
  | none => throw (.unknownIdentity token)
  | some bytes =>
    match Record.decode? bytes with
    | none => throw (.malformedIdentity token malformed)
    | some record => return record

-- Takes the record from the cache, in place of one that is already held. The lifetime is refreshed
-- with the record in hand, so that its user is known.
def load : Action Unit := do
  ensureNotRemoved
  let session ← get
  let record ← fetch session.token
  setState (.held (.of record false))
  if session.refreshOnLoad then refreshFor record.user.id false

-- The record in memory, loaded first if it was not yet.
def held : Action Held := do
  match (← get).state with
  | .unloaded => load
  | _ => pure ()
  let session ← get
  match session.state with
  | .held held => return held
  | .removed => throw (.removed session.token)
  | .unloaded => throw (.notLoaded session.token)

def record : Action Record :=
  return (← held).record

def user : Action String :=
  return (← held).record.user.id

def activeGrants : Action (List Grant) := do
  let held ← held
  match held.active? with
  | some grants => return grants
  | none =>
    let grants ← decoded held.record.user.perms
    setState (.held { held with active? := some grants })
    return grants

def fullGrants : Action (List Grant) := do
  let held ← held
  match held.full? with
  | some grants => return grants
  | none =>
    let grants ← decoded held.record.full
    setState (.held { held with full? := some grants })
    return grants

def withActive (held : Held) (blob : String) (grants : List Grant) : Held where
  record := { held.record with user := { held.record.user with perms := blob } }
  active? := some grants
  full? := held.full?
  modified := true

-- Makes a list active without asking whether the full list allows it.
def activate (grants : List Grant) : Action Unit := do
  let grants := compacted grants
  let blob := Blob.encode grants
  let held ← held
  setState (.held (withActive held blob grants))

-- Writes the record and puts its token first in the index of its user.
def write (never : Bool) : Action Unit := do
  let held ← held
  let session ← get
  let user := held.record.user.id
  send (.setex (Key.record session.token) session.lifetime held.record.encode)
  let _ ← send (.lrem (Key.index user) 0 session.token)
  let _ ← send (.lpush (Key.index user) session.token)
  if never then persistBoth user
  else let _ ← send (.expire (Key.index user) session.lifetime)
  setState (.held { held with modified := false })

def forbidden (grant : Grant) : AccessError :=
  .forbidden grant.action grant.objectType grant.definition grant.path

-- Makes a list active of which the full list allows each grant.
def restrict (grants : List Grant) (store : Bool) : Action Unit := do
  let full ← fullGrants
  match grants.find? fun grant => !permitted full grant.asRequest with
  | some grant => throw (forbidden grant)
  | none =>
    activate grants
    if store then write false

-- Makes the full list active again.
def restore : Action Unit := do
  let grants ← fullGrants
  let held ← held
  setState (.held (withActive held held.record.full grants))

-- Whether the full list allows a request.
def can (action objectType path definition : String) : Action Bool :=
  return permitted (← fullGrants) (.of action objectType path definition)

-- Whether the active list allows a request.
def isActive (action objectType path definition : String) : Action Bool :=
  return permitted (← activeGrants) (.of action objectType path definition)

def remaining : Action Store.Lifetime := do
  ensureNotRemoved
  let session ← get
  send (.ttl (Key.record session.token))

def setLifetime (seconds : UInt64) : Action Unit := do
  expireBoth (← user) seconds

def refresh (never : Bool) : Action Unit := do
  refreshFor (← user) never

-- Writes the record only if it was changed; otherwise its lifetime is refreshed.
def save (never : Bool) : Action Unit := do
  if (← held).modified then write never else refresh never

def remove : Action Unit := do
  let user ← user
  let session ← get
  let _ ← send (.delete (Key.record session.token))
  let _ ← send (.lrem (Key.index user) 0 session.token)
  setState .removed

-- The record alone, at the end of the session.
def intoRecord : Action Record := do
  let _ ← held
  let session ← get
  match session.state with
  | .held held => return held.record
  | _ => throw (.notLoaded session.token)

-- An action with the session it leaves behind, whether it succeeds or not.
def perform (action : Action α) (session : Session) : Script (Except AccessError α × Session) :=
  (action.run).run session

-- A new session that an action leaves behind if it succeeds.
def launch (action : Action Unit) (session : Except AccessError Session) :
    Script (Except AccessError Session) := do
  match session with
  | .error error => return .error error
  | .ok session =>
    let (result, session) ← perform action session
    return result.map fun _ => session

-- The session of an identity that is in the cache.
def start (token : String) (config : Config) : Script (Except AccessError Session) :=
  launch load (create token config)

-- Puts a record into the cache under a token.
def establish (token : String) (record : Record) (config : Config) :
    Script (Except AccessError Session) :=
  launch (write config.settings.neverExpires) <| (create token config).map fun session =>
    { session with state := .held (.of { record with uid := token } true) }

end Session
end Entitlement
