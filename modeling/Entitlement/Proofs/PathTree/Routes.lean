import Entitlement.Proofs.PathTree
import Entitlement.Proofs.Text.Bytes
/-!
The routes of a tree: which keys lead from its root to a leaf, and to which one. The tree of some
rows has just these rows for its routes. What is covered of a tree are the routes that take the star
wherever there is one.
-/

namespace Entitlement

open Entitlement.Path

namespace PathTree

-- The keys of each group are in order, and each occurs once.
inductive Ordered : PathTree → Prop
  | leaf {path : String} : Ordered (leaf path)
  | branch {children : Fields PathTree} (ha : children.Ascending)
    (hc : ∀ child ∈ children, Ordered child.2) : Ordered (branch children)

-- The keys that lead to a leaf, and the path of the leaf.
abbrev Route := Row × String

def Route.under (key : String) (route : Route) : Route :=
  (key :: route.1, route.2)

mutual

def routes : PathTree → List Route
  | leaf path => [([], path)]
  | branch children => routesAll children

def routesAll : Fields PathTree → List Route
  | [] => []
  | (key, tree) :: rest => (routes tree).map (Route.under key) ++ routesAll rest

end

-- Whether a key may be taken in a group: it is the star, or the group has none.
def admits (children : Fields PathTree) (key : String) : Bool :=
  key = wildcard || !children.names.contains wildcard

-- Whether keys take the star in every group on their way that has one.
def prefersStars : PathTree → List String → Bool
  | branch children, key :: keys =>
    admits children key && (Fields.find? key children).all (prefersStars · keys)
  | _, _ => true

variable {tree : PathTree} {children : Fields PathTree} {key text : String} {keys : List String}

theorem routes_branch (children : Fields PathTree) : routes (branch children) =
    children.flatMap fun child => (routes child.2).map (Route.under child.1) := by
  rw [routes]
  induction children
  case nil => rfl
  case cons child rest hi => rw [routesAll, hi, List.flatMap_cons]

theorem Ordered.routes_ascending (h : tree.Ordered) :
    tree.routes.Pairwise fun a b => a.1 < b.1 := by
  induction h
  case leaf => exact List.pairwise_singleton ..
  case branch children ha hc hi =>
    rw [routes_branch]
    refine List.pairwise_flatMap.mpr ⟨fun child hm => ?_, ha.imp fun {a b} hlt => ?_⟩
    · refine List.pairwise_map.mpr ((hi child hm).imp fun hlt => ?_)
      exact List.cons_lt_cons_iff.mpr (.inr ⟨rfl, hlt⟩)
    · intro route hr other ho
      obtain ⟨_, _, rfl⟩ := List.mem_map.mp hr
      obtain ⟨_, _, rfl⟩ := List.mem_map.mp ho
      exact List.cons_lt_cons_iff.mpr (.inl hlt)

theorem prefersStars_under (ha : children.Ascending) {child : String × PathTree}
    (hm : child ∈ children) (route : Route) :
    prefersStars (branch children) (route.under child.1).1 =
      (admits children child.1 && prefersStars child.2 route.1) := by
  have hf : children.find? child.1 = some child.2 := Fields.find?_of_mem ha hm
  rw [Route.under, prefersStars, hf, Option.all_some]

-- A route that prefers stars goes on like this below a key that may be taken.
theorem filter_routes_branch (ha : children.Ascending) :
    (routes (branch children)).filter (prefersStars (branch children) ·.1) =
      children.flatMap fun child =>
        if admits children child.1 then
          ((routes child.2).filter (prefersStars child.2 ·.1)).map (Route.under child.1)
        else [] := by
  rw [routes_branch, List.filter_flatMap]
  refine List.flatMap_congr fun child hm => ?_
  simp only [List.filter_map, Function.comp_def, prefersStars_under ha hm]
  cases admits children child.1
  case false => simp
  case true => simp

theorem cover_eq_of_ordered (h : tree.Ordered) :
    cover tree = (tree.routes.filter (tree.prefersStars ·.1)).map Prod.snd := by
  induction h
  case leaf => simp [cover, routes, prefersStars]
  case branch children ha hc hi =>
    rw [filter_routes_branch ha, List.map_flatMap]
    cases hf : children.find? wildcard
    case some star =>
      rw [cover_branch_of_wildcard hf, Fields.flatMap_eq_of_find? ha hf]
      · rw [if_pos (by simp [admits]), List.map_map, hi _ (Fields.mem_of_find? hf)]
        rfl
      · intro child hm hn
        have hw : wildcard ∈ children.names := List.mem_map_of_mem (Fields.mem_of_find? hf)
        rw [if_neg (by simp [admits, hn, hw]), List.map_nil]
    case none =>
      rw [cover_branch_of_no_wildcard hf]
      refine List.flatMap_congr fun child hm => ?_
      have hw : wildcard ∉ children.names := Fields.find?_eq_none.mp hf
      rw [if_pos (by simp [admits, hw]), List.map_map, hi child hm]
      rfl

variable {rows : List Row} {length pos levels depth : Nat}

theorem ordered_grow (levels : Nat) (rows : List Row) (pos : Nat) :
    (grow levels rows pos).Ordered := by
  induction levels generalizing rows pos
  case zero => exact .leaf
  case succ levels hi =>
    rw [grow]
    split
    case isTrue => exact .leaf
    case isFalse =>
      refine .branch (List.pairwise_map.mpr bucketsAt_ascending) fun child hm => ?_
      obtain ⟨_, _, rfl⟩ := List.mem_map.mp hm
      exact hi _ _

theorem mem_routes_children : (keys, text) ∈ (branch (childrenAt levels pos rows)).routes ↔
    ∃ segment rest, keys = segment :: rest ∧ (∃ row ∈ rows, row[pos]? = some segment) ∧
      (rest, text) ∈ (grow levels (bucket pos rows segment) (pos + 1)).routes := by
  rw [routes_branch, childrenAt, List.flatMap_map, List.mem_flatMap]
  constructor
  case mp =>
    rintro ⟨⟨segment, rows'⟩, hb, hm⟩
    obtain ⟨he, hr⟩ := mem_bucketsAt.mp hb
    obtain ⟨⟨rest, _⟩, hl, ⟨⟩⟩ := List.mem_map.mp hm
    exact ⟨segment, rest, rfl, hr, he ▸ hl⟩
  case mpr =>
    rintro ⟨segment, rest, rfl, hr, hm⟩
    exact ⟨(segment, bucket pos rows segment), mem_bucketsAt.mpr ⟨rfl, hr⟩,
      List.mem_map_of_mem hm⟩

-- The tree of some rows leads from the segments that are left of a row to this row.
theorem mem_routes_grow (levels : Nat) (h : Meet length pos rows) (hl : length = pos + levels) :
    (keys, text) ∈ (grow levels rows pos).routes ↔
      ∃ row ∈ rows, row.drop pos = keys ∧ join row = text := by
  induction levels generalizing pos rows keys
  case zero =>
    obtain rfl : pos = length := hl.symm
    have hd (row : Row) (hr : row ∈ rows) : row.drop pos = [] :=
      List.drop_eq_nil_of_le (Nat.le_of_eq (h.length_eq row hr))
    rw [grow, routes, List.mem_singleton, Prod.mk.injEq]
    constructor
    case mp =>
      rintro ⟨rfl, rfl⟩
      exact ⟨_, h.head_mem, hd _ h.head_mem, rfl⟩
    case mpr =>
      rintro ⟨row, hr, rfl, rfl⟩
      exact ⟨hd row hr, congrArg join (h.eq_head hr)⟩
  case succ levels hi =>
    have drop_eq {row : Row} {segment : String} (hs : row[pos]? = some segment) :
        row.drop pos = segment :: row.drop (pos + 1) := by
      obtain ⟨hp, rfl⟩ := List.getElem?_eq_some_iff.mp hs
      exact List.drop_eq_getElem_cons hp
    rw [h.grow_succ hl, mem_routes_children]
    constructor
    case mp =>
      rintro ⟨segment, rest, rfl, ⟨row, hr, hs⟩, hm⟩
      obtain ⟨row, hr, rfl, rfl⟩ := (hi (h.bucket hr hs) (by omega)).mp hm
      obtain ⟨hr, hs⟩ := mem_bucket.mp hr
      exact ⟨row, hr, drop_eq hs, rfl⟩
    case mpr =>
      rintro ⟨row, hr, rfl, rfl⟩
      obtain ⟨segment, hs⟩ := h.exists_segment (by omega) hr
      refine ⟨segment, row.drop (pos + 1), drop_eq hs, ⟨row, hr, hs⟩, ?_⟩
      exact (hi (h.bucket hr hs) (by omega)).mpr ⟨row, mem_bucket.mpr ⟨hr, hs⟩, rfl, rfl⟩

-- A row joins the bucket of its segment, if it reaches so far.
def push? (pos : Nat) (buckets : Fields (List Row)) (row : Row) : Option (Fields (List Row)) :=
  row[pos]?.map fun segment =>
    buckets.insert segment ((Fields.find? segment buckets).getD [] ++ [row])

-- Grouping as it goes on, with calls inside each other as deep as that. There is no result if this
-- is not deep enough, or if a row does not reach a position that is asked for.
def group? : (depth : Nat) → (rows : List Row) → (pos : Nat) → Option PathTree
  | 0, _, _ => none
  | depth + 1, rows, pos =>
    if (rows.headD []).length ≤ pos then some (.leaf (join (rows.headD [])))
    else do
      let buckets ← rows.foldlM (push? pos) []
      let children ← buckets.mapM fun (segment, bucket) =>
        (group? depth bucket (pos + 1)).map (segment, ·)
      return .branch children

theorem find?_bucketsAt_eq (pos : Nat) (rows : List Row) (segment : String) :
    (bucketsAt pos rows).find? segment =
      if bucket pos rows segment = [] then none else some (bucket pos rows segment) := by
  split
  case isTrue hb =>
    refine find?_bucketsAt_eq_none.mpr fun row hr hs => ?_
    exact List.ne_nil_of_mem (mem_bucket.mpr ⟨hr, hs⟩) hb
  case isFalse hb =>
    have ⟨row, hm⟩ := List.exists_mem_of_ne_nil _ hb
    have ⟨hr, hs⟩ := mem_bucket.mp hm
    exact find?_bucketsAt hr hs

theorem bucket_append (pos : Nat) (rows : List Row) (row : Row) (segment : String) :
    bucket pos (rows ++ [row]) segment =
      bucket pos rows segment ++ if row[pos]? = some segment then [row] else [] := by
  rw [bucket, List.filter_append, bucket, List.filter_singleton]
  split
  · simp [*]
  · simp [*]

theorem push?_bucketsAt {row : Row} (h : pos < row.length) :
    push? pos (bucketsAt pos rows) row = some (bucketsAt pos (rows ++ [row])) := by
  have hs : row[pos]? = some row[pos] := List.getElem?_eq_getElem h
  rw [push?, hs, Option.map_some]
  refine congrArg some (Fields.Ascending.ext ?_ bucketsAt_ascending fun name => ?_)
  · exact Fields.insert_ascending bucketsAt_ascending ..
  · rw [Fields.find?_insert, find?_bucketsAt_eq, find?_bucketsAt_eq, find?_bucketsAt_eq,
      bucket_append, hs]
    by_cases hn : name = row[pos]
    case pos =>
      subst hn
      by_cases hb : bucket pos rows row[pos] = []
      all_goals simp [hb]
    case neg => simp [hn, Ne.symm hn]

theorem foldlM_push? (h : ∀ row ∈ rows, pos < row.length) :
    rows.foldlM (push? pos) [] = some (bucketsAt pos rows) := by
  induction rows using List.reverseRecOn
  case nil => rfl
  case append_singleton rows row hi =>
    have ⟨hr, hl⟩ := List.forall_mem_append.mp h
    rw [List.foldlM_append, hi hr]
    simp [push?_bucketsAt (hl row (.head _))]

theorem mapM_eq_some {α β : Type} {f : α → Option β} {g : α → β} {items : List α}
    (h : ∀ item ∈ items, f item = some (g item)) : items.mapM f = some (items.map g) := by
  induction items
  case nil => rfl
  case cons item rest hi =>
    have ⟨hf, hr⟩ := List.forall_mem_cons.mp h
    simp [List.mapM_cons, hf, hi hr]

-- As long as the rows are equally long, grouping finds each segment that it looks for, and it ends.
theorem group?_eq (h : Meet length pos rows) (hl : length = pos + levels) (hd : levels < depth) :
    group? depth rows pos = some (grow levels rows pos) := by
  obtain ⟨depth, rfl⟩ := Nat.exists_eq_succ_of_ne_zero (Nat.ne_zero_of_lt hd)
  have hh := h.length_eq _ h.head_mem
  induction levels generalizing pos rows depth
  case zero => rw [group?, if_pos (by omega), grow]
  case succ levels hi =>
    have hr : ∀ row ∈ rows, pos < row.length := fun row hr => by
      have := h.length_eq row hr
      omega
    have hc : ∀ child ∈ bucketsAt pos rows,
        (group? depth child.2 (pos + 1)).map (child.1, ·) =
          some (child.1, grow levels child.2 (pos + 1)) := by
      intro child hm
      obtain ⟨hb, row, hr, hs⟩ := mem_bucketsAt.mp hm
      have hg : Meet length (pos + 1) child.2 := hb ▸ h.bucket hr hs
      obtain ⟨depth, rfl⟩ := Nat.exists_eq_succ_of_ne_zero (n := depth) (by omega)
      rw [hi hg (by omega) depth (by omega) (hg.length_eq _ hg.head_mem), Option.map_some]
    rw [group?, if_neg (by omega), h.grow_succ hl, foldlM_push? hr]
    rw [Option.bind_eq_bind, Option.bind_some, mapM_eq_some hc]
    rfl

-- The tree of equally long rows that agree up to a position is there, each time that grouping may
-- go as deep as the rows are long, and its routes are what is left of the rows, each once. Covering
-- and descending come to the same in any tree: to the routes that prefer stars, in order.
theorem routed_by_rows_and_stars :
    (∀ (length pos : Nat) (rows : List Row), Meet length pos rows → pos ≤ length →
      (∀ depth, length < pos + depth → group? depth rows pos = some (ofRows rows pos)) ∧
      (ofRows rows pos).Ordered ∧
      ((ofRows rows pos).routes.map Prod.fst).Nodup ∧
      ∀ keys text, (keys, text) ∈ (ofRows rows pos).routes ↔
        ∃ row ∈ rows, row.drop pos = keys ∧ join row = text) ∧
    ∀ tree : PathTree, tree.Ordered →
      cover tree = descend tree ∧
      cover tree = (tree.routes.filter (tree.prefersStars ·.1)).map Prod.snd ∧
      tree.routes.Pairwise fun a b => a.1.map Text.bytes < b.1.map Text.bytes := by
  constructor
  case left =>
    intro length pos rows h hp
    have hl : length = pos + (length - pos) := by omega
    have ho : (grow (length - pos) rows pos).Ordered := ordered_grow _ rows pos
    rw [ofRows, width_eq h.ne_nil h.length_eq]
    refine ⟨?depth, ho, ?once, fun keys text => mem_routes_grow _ h hl⟩
    case depth => exact fun depth hd => group?_eq h hl (by omega)
    case once =>
      refine List.pairwise_map.mpr (ho.routes_ascending.imp fun {a b} hlt he => ?_)
      exact List.lt_irrefl b.1 (he ▸ hlt)
  case right =>
    intro tree h
    exact ⟨(descend_eq_cover tree).symm, cover_eq_of_ordered h,
      h.routes_ascending.imp Text.map_bytes_lt⟩

-- A segment with a separator in it, and a tree with an empty group and leaves in different depths.
theorem routed_by_separators_and_gaps :
    let rows : List Row := [["a", "b//c"], ["a", "*"], ["a", "b//c"]]
    let starred : PathTree := branch [("c", leaf "q"), ("d", branch [])]
    let tree := branch [("a", leaf "p"), ("b", branch [("*", starred), ("e", leaf "r")])]
    Meet 2 1 rows ∧ group? 2 rows 1 = some (ofRows rows 1) ∧
      ((ofRows rows 1).routes.map Prod.fst).Nodup ∧
      (["b//c"], "a//b//c") ∈ (ofRows rows 1).routes ∧
      tree.Ordered ∧ cover tree = descend tree ∧ cover tree = ["p", "q"] := by
  intro rows starred tree
  have hm : Meet 2 1 rows := ⟨by decide, by decide, by decide⟩
  have ht : tree.Ordered := by
    have ordered {a b : String × PathTree} (hl : a.1 < b.1) (ha : a.2.Ordered) (hb : b.2.Ordered) :
        (branch [a, b]).Ordered := by
      refine .branch (List.pairwise_pair.mpr hl) (List.forall_mem_cons.mpr ⟨ha, ?_⟩)
      exact List.forall_mem_singleton.mpr hb
    have hs : starred.Ordered := ordered (by decide) .leaf (.branch .nil (List.forall_mem_nil _))
    exact ordered (by decide) .leaf (ordered (by decide) hs .leaf)
  have ⟨hg, _, hn, hr⟩ := routed_by_rows_and_stars.1 2 1 rows hm (by decide)
  have ⟨he, hc, _⟩ := routed_by_rows_and_stars.2 tree ht
  have hb : (["b//c"], "a//b//c") ∈ (ofRows rows 1).routes :=
    (hr _ _).mpr ⟨["a", "b//c"], .head _, rfl, by decide⟩
  exact ⟨hm, hg 2 (by decide), hn, hb, ht, he, hc.trans (by decide)⟩

end PathTree
end Entitlement
