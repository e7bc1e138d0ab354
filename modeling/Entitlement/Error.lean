/-!
What can go wrong: `StoreError` for the cache, `AccessError` for permissions and identities, and
`Failure` for either of them. Each kind is told apart by its cause; the wording is in `message`.
-/

namespace Entitlement

inductive StoreError where
  -- `expected` names the kind of value that the command works on
  | wrongType (key expected : String)
  | lockPoisoned
  | unavailable (reason : String)
  | unwritable
  -- `detail` says what the reader refused, where it was more than the form of the text
  | unreadable (detail : Option String)
  | fileIo
deriving DecidableEq, Repr

namespace StoreError

def message : StoreError → String
  | wrongType key expected => "Wrong value type for key " ++ key ++ ": expected " ++ expected
  | lockPoisoned => "Store lock poisoned"
  | unavailable reason => "Store unavailable: " ++ reason
  | unwritable => "Serialization failed"
  | unreadable _ => "Deserialization failed"
  | fileIo => "File I/O error"

def isUnavailable : StoreError → Bool
  | unavailable _ => true
  | _ => false

def isWrongType : StoreError → Bool
  | wrongType .. => true
  | _ => false

def isIoError : StoreError → Bool
  | unwritable | unreadable _ | fileIo => true
  | _ => false

def key? : StoreError → Option String
  | wrongType key _ => some key
  | _ => none

end StoreError

inductive AccessError where
  | unknownIdentity (token : String)
  -- the four fields of the refused request, as they were given
  | forbidden (action objectType definition path : String)
  | store (operation : String) (cause : StoreError)
  | undecodable (reason : String)
  | unencodable (reason : String)
  | malformedIdentity (token reason : String)
  | notLoaded (token : String)
  | removed (token : String)
  | noStore
  | noPaths
  | unevenPath (path : String) (expected found : Nat)
  | malformedGrant (reason : String)
deriving DecidableEq, Repr

namespace AccessError

def message : AccessError → String
  | unknownIdentity token => "Identity " ++ token ++ " does not exist or is expired"
  | forbidden action objectType definition path =>
    "action " ++ action ++ ", on " ++ objectType ++ " " ++ definition ++ " " ++ path ++
      " cannot be performed by user"
  | store operation cause => "Store operation " ++ operation ++ " failed: " ++ cause.message
  | undecodable reason => "Cannot decode permission list: " ++ reason
  | unencodable reason => "Cannot encode permission list: " ++ reason
  | malformedIdentity token reason => "Malformed identity " ++ token ++ ": " ++ reason
  | notLoaded token => "Identity " ++ token ++ " is not loaded"
  | removed token => "Identity " ++ token ++ " was removed"
  | noStore => "cannot find a cache store connection"
  | noPaths => "Cannot compact an empty permission list"
  | unevenPath path expected found =>
    "Permission path '" ++ path ++ "' has " ++ toString found ++ " segments, expected " ++
      toString expected
  | malformedGrant reason => "Invalid permission tuple: " ++ reason

def invalidCredentials : Nat := 1

def undefinedCode : Nat := 10

def code : AccessError → Nat
  | unknownIdentity _ | forbidden .. => invalidCredentials
  | _ => undefinedCode

def description : AccessError → String
  | unknownIdentity _ => "Identity expired"
  | forbidden .. => "Forbidden"
  | store .. | noStore => "Connection error"
  | _ => "Undefined"

def isNotFound : AccessError → Bool
  | unknownIdentity _ => true
  | _ => false

def isPermissionDenied : AccessError → Bool
  | forbidden .. => true
  | _ => false

def isStoreError : AccessError → Bool
  | store .. | noStore => true
  | _ => false

def isPermissionFormatError : AccessError → Bool
  | undecodable _ | unencodable _ | noPaths | unevenPath .. | malformedGrant _ => true
  | _ => false

def isLifecycleError : AccessError → Bool
  | notLoaded _ | removed _ => true
  | _ => false

-- The error that lies below this one.
def cause? : AccessError → Option StoreError
  | store _ cause => some cause
  | _ => none

end AccessError

-- An error of the whole library.
inductive Failure where
  | access (error : AccessError)
  | store (error : StoreError)
deriving DecidableEq, Repr

namespace Failure

-- The part of the library that failed.
def area : Failure → String
  | access _ => "auth"
  | store _ => "backend"

def code : Failure → Nat
  | access error => error.code
  | store _ => AccessError.undefinedCode

def message : Failure → String
  | access error => error.message
  | store error => error.message

def isNotFound : Failure → Bool
  | access error => error.isNotFound
  | store _ => false

def isPermissionDenied : Failure → Bool
  | access error => error.isPermissionDenied
  | store _ => false

def isStoreError : Failure → Bool
  | access error => error.isStoreError
  | store _ => true

def isIoError : Failure → Bool
  | access _ => false
  | store error => error.isIoError

end Failure
end Entitlement
