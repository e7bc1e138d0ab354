import Entitlement.Path
import Entitlement.Text.Lowercase
/-!
Permissions. A `Grant` lets its holder do an action on the objects of one type and definition whose
path its own path stands for; a `Request` asks for one such action. Letter case does not matter.
-/

namespace Entitlement

structure Grant where
  id : Int64
  objectId : Int64
  objectType : String
  definition : String
  path : String
  level : Int64
  action : String
deriving DecidableEq, Repr

-- The texts of a request are taken in lowercase; see `Request.of`.
structure Request where
  action : String
  objectType : String
  path : String
  definition : String
deriving DecidableEq, Repr

namespace Request

def of (action objectType path definition : String) : Request where
  action := Text.lowercase action
  objectType := Text.lowercase objectType
  path := Text.lowercase path
  definition := Text.lowercase definition

def segments (request : Request) : List String :=
  Path.segments request.path

end Request

namespace Grant

def segments (grant : Grant) : List String :=
  Path.segments grant.path

def isAnyAction (grant : Grant) : Bool :=
  grant.action = Path.wildcard

-- The request that asks for just what the grant gives, its stars included.
def asRequest (grant : Grant) : Request :=
  .of grant.action grant.objectType grant.path grant.definition

def permits (grant : Grant) (request : Request) : Bool :=
  let action := Text.lowercase grant.action
  Text.lowercase grant.objectType = request.objectType &&
  Text.lowercase grant.definition = request.definition &&
  (action = Path.wildcard || action = request.action) &&
  Path.covers (Path.segments (Text.lowercase grant.path)) request.segments

end Grant

def permitted (grants : List Grant) (request : Request) : Bool :=
  grants.any (·.permits request)

end Entitlement
