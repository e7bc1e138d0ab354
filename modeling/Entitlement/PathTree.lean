import Entitlement.Path
import Entitlement.Error
/-!
Paths of one length grouped by their segments, one level for each position. In a group that has a
star, the star stands for its siblings and only its branch is followed; this is how a list of paths
is reduced to those that no other path makes redundant (`cover?`).
-/

namespace Entitlement

inductive PathTree where
  | leaf (path : String)
  | branch (children : List (String × PathTree))
deriving Inhabited

abbrev Row := List String

namespace PathTree

-- The rows that reach `pos`, by their segment there.
def bucketsAt (pos : Nat) (rows : List Row) : Fields (List Row) :=
  .ofList <| rows.filterMap fun row =>
    row[pos]?.map fun segment => (segment, rows.filter (fun r => r[pos]? = some segment))

-- `levels` bounds how many positions are left in any row. The first row of a bucket decides
-- whether the bucket ends here, in which case that row is kept for all of them.
def grow : (levels : Nat) → (rows : List Row) → (pos : Nat) → PathTree
  | 0, rows, _ => .leaf (Path.join (rows.headD []))
  | levels + 1, rows, pos =>
    if (rows.headD []).length ≤ pos then .leaf (Path.join (rows.headD []))
    else .branch <| (bucketsAt pos rows).map fun (segment, bucket) =>
      (segment, grow levels bucket (pos + 1))

def width (rows : List Row) : Nat :=
  rows.foldr (fun row n => max row.length n) 0

def ofRows (rows : List Row) (pos : Nat) : PathTree :=
  grow (width rows - pos) rows pos

mutual

-- The paths of a tree that no star beside their branch stands for.
def cover : PathTree → List String
  | leaf path => [path]
  | branch children => (descendWildcard? children).getD (coverAll children)

-- Goes down a star branch; below it a level without a star of its own is covered like any other.
def descend : PathTree → List String
  | leaf path => [path]
  | branch children => (descendWildcard? children).getD (coverAll children)

def descendWildcard? : Fields PathTree → Option (List String)
  | [] => none
  | (segment, tree) :: rest =>
    if segment = Path.wildcard then some (descend tree) else descendWildcard? rest

def coverAll : Fields PathTree → List String
  | [] => []
  | (_, tree) :: rest => cover tree ++ coverAll rest

end

end PathTree

namespace Path

def rows? (expected : Nat) : List String → Except AccessError (List Row)
  | [] => .ok []
  | path :: rest =>
    let row := segments path
    if row.length = expected then (row :: ·) <$> rows? expected rest
    else .error (.unevenPath path expected row.length)

-- The paths of a list that are not covered by a path which has a star where they first differ.
def cover? : List String → Except AccessError (List String)
  | [] => .error .noPaths
  | first :: rest => do
    let rows ← rows? (segments first).length (first :: rest)
    return (PathTree.ofRows rows 0).cover

end Path
end Entitlement
