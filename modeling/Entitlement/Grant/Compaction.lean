import Entitlement.Grant
import Entitlement.PathTree
/-!
Grants that no other grant of the list makes redundant. Grants are compared in lowercase and only
within their `Kind`; of those with the same path the first one is kept.
-/

namespace Entitlement

-- What two grants share when their paths are compared.
structure Kind where
  objectType : String
  definition : String
  action : String
  length : Nat
deriving DecidableEq, Repr

namespace Grant

def kind (grant : Grant) : Kind where
  objectType := Text.lowercase grant.objectType
  definition := Text.lowercase grant.definition
  action := Text.lowercase grant.action
  length := grant.segments.length

def key (grant : Grant) : Kind × String :=
  (grant.kind, Text.lowercase grant.path)

end Grant

namespace Compaction

-- All paths of a kind are equally long, so that they always have a cover.
def survivingPaths (paths : List String) : List String :=
  (Path.cover? paths).toOption.getD paths

def survivors (keys : List (Kind × String)) : List (Kind × String) :=
  (keys.map Prod.fst).eraseDups.flatMap fun kind =>
    (survivingPaths ((keys.filter (·.1 = kind)).map Prod.snd)).map (kind, ·)

-- Each key that is left goes to the first grant that has it.
def claim : (left : List (Kind × String)) → List (Grant × Kind × String) → List Grant
  | _, [] => []
  | left, (grant, key) :: rest =>
    if key ∈ left then grant :: claim (left.erase key) rest else claim left rest

end Compaction

def compacted (grants : List Grant) : List Grant :=
  Compaction.claim (Compaction.survivors (grants.map Grant.key)) (grants.map fun g => (g, g.key))

end Entitlement
