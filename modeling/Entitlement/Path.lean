import Entitlement.Fields
/-!
Permission paths: segments between double slashes. A segment that is a star stands for every
segment.
-/

namespace Entitlement.Path

def wildcard : String := "*"

-- Separators are taken from the left and do not overlap, so three slashes are an empty segment
-- and a slash. There is always at least one segment.
def split : List Char → List (List Char)
  | [] => [[]]
  | '/' :: '/' :: rest => [] :: split rest
  | c :: rest => extend c (split rest)
where
  extend (c : Char) : List (List Char) → List (List Char)
    | [] => [[c]]
    | segment :: rest => (c :: segment) :: rest

def segments (path : String) : List String :=
  (split path.toList).map String.ofList

def join (segments : List String) : String :=
  "//".intercalate segments

-- A pattern stands for the paths of its own length that have its literals in their places.
def covers : (pattern segments : List String) → Bool
  | [], [] => true
  | p :: pattern, s :: segments => (p = wildcard || p = s) && covers pattern segments
  | _, _ => false

theorem split_ne_nil (path : List Char) : split path ≠ [] := by
  fun_cases split path with
  | case1 => simp
  | case2 => simp
  | case3 c rest => cases h : split rest <;> simp [split.extend]

theorem covers_length {pattern path : List String} (h : covers pattern path) :
    pattern.length = path.length := by
  fun_induction covers pattern path <;> simp_all

end Entitlement.Path
