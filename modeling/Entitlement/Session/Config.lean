import Entitlement.Error
import Entitlement.Json.Reader
/-!
How long identities live: the settings as they are written down, and the configuration that is made
of them.
-/

namespace Entitlement

open Json (Raw)

def defaultLifetime : UInt64 := 3600

structure Settings where
  -- in seconds
  lifetime : UInt64 := defaultLifetime
  neverExpires : Bool := false
  refreshOnLoad : Bool := true
deriving DecidableEq, Repr

namespace Settings

def member? (name : String) (read : Raw → Option α) (default : α) (members : List (String × Raw)) :
    Option α := do
  (← Raw.member? name members).elim (some default) read

-- What is not given keeps its default. As an array the settings have a fixed order.
def ofRaw? : Raw → Option Settings
  | .array items =>
    match items with
    | [] => some {}
    | [lifetime] => do return { lifetime := ← lifetime.uint64? }
    | [lifetime, never] => do
      return { lifetime := ← lifetime.uint64?, neverExpires := ← never.bool? }
    | [lifetime, never, refresh] => do
      return {
        lifetime := ← lifetime.uint64?
        neverExpires := ← never.bool?
        refreshOnLoad := ← refresh.bool? }
    | _ => none
  | .object members => do
    let members ← Raw.named? members
    return {
      lifetime := ← member? "expire_secs" Raw.uint64? defaultLifetime members
      neverExpires := ← member? "never_expire" Raw.bool? false members
      refreshOnLoad := ← member? "update_ttl_on_load" Raw.bool? true members }
  | _ => none

def toRaw (settings : Settings) : Raw :=
  .object [
    Raw.named "expire_secs" (.word settings.lifetime),
    Raw.named "never_expire" (.bool settings.neverExpires),
    Raw.named "update_ttl_on_load" (.bool settings.refreshOnLoad)]

def parse? (text : String) : Option Settings :=
  (Raw.parse? text.toList).bind ofRaw?

def text (settings : Settings) : String :=
  String.ofList settings.toRaw.compact

end Settings

structure Config where
  -- whether there is a cache at all
  connected : Bool := false
  settings : Settings := {}
deriving DecidableEq, Repr

namespace Config

def withLifetime (config : Config) (seconds : UInt64) : Config :=
  { config with settings := { config.settings with lifetime := seconds } }

def withNeverExpires (config : Config) (never : Bool) : Config :=
  { config with settings := { config.settings with neverExpires := never } }

def withRefreshOnLoad (config : Config) (refresh : Bool) : Config :=
  { config with settings := { config.settings with refreshOnLoad := refresh } }

-- A lifetime of zero stands for the default.
def lifetime (config : Config) : UInt64 :=
  if config.settings.lifetime = 0 then defaultLifetime else config.settings.lifetime

def ensureConnected (config : Config) : Except AccessError Unit :=
  if config.connected then .ok () else .error .noStore

end Config
end Entitlement
