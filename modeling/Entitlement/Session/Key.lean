/-!
The keys under which identities lie in the cache: the record of a token, and the index of the tokens
of a user.
-/

namespace Entitlement.Key

def start : String := "identity:"

def indexStart : String := "identity:index:"

def record (token : String) : String :=
  start ++ token

def index (user : String) : String :=
  indexStart ++ user

def isIndex (key : String) : Bool :=
  indexStart.isPrefixOf key

-- The token of a key that begins like one.
def token (key : String) : String :=
  if start.isPrefixOf key then String.ofList (key.toList.drop start.length) else key

end Entitlement.Key
