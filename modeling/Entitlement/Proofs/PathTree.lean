import Entitlement.PathTree
import Entitlement.Proofs.Fields
import Entitlement.Proofs.Path.Precedence
import Mathlib.Tactic.Choose
/-!
The paths that are left of a tree are those that no other one outranks. The induction goes down the
levels of the tree: all rows that reach a place of it agree up to there (`Meet`).
-/

namespace Entitlement.PathTree

open Entitlement.Path

theorem descend_eq_cover (tree : PathTree) : descend tree = cover tree := by
  cases tree <;> simp only [cover, descend]

theorem descendWildcard?_eq (children : Fields PathTree) :
    descendWildcard? children = (children.find? wildcard).map cover := by
  induction children
  case nil => rfl
  case cons child rest hi =>
    rw [descendWildcard?, Fields.find?, hi, descend_eq_cover, apply_ite (Option.map cover)]
    simp [eq_comm]

theorem coverAll_eq (children : Fields PathTree) :
    coverAll children = children.flatMap fun child => cover child.2 := by
  induction children
  case nil => rfl
  case cons child rest hi => rw [coverAll, hi, List.flatMap_cons]

theorem cover_branch_of_wildcard {children : Fields PathTree}
    (h : children.find? wildcard = some tree) : cover (branch children) = cover tree := by
  rw [cover, descendWildcard?_eq, h]
  rfl

theorem cover_branch_of_no_wildcard {children : Fields PathTree}
    (h : children.find? wildcard = none) :
    cover (branch children) = children.flatMap fun child => cover child.2 := by
  rw [cover, descendWildcard?_eq, h, coverAll_eq]
  rfl

variable {rows : List Row} {length pos : Nat} {segment : String}

-- The rows that reach one place of the tree: rows of one length with the same segments so far.
structure Meet (length pos : Nat) (rows : List Row) : Prop where
  ne_nil : rows ≠ []
  length_eq : ∀ row ∈ rows, row.length = length
  agree : ∀ row ∈ rows, ∀ other ∈ rows, row.take pos = other.take pos

def bucket (pos : Nat) (rows : List Row) (segment : String) : List Row :=
  rows.filter (·[pos]? = some segment)

theorem mem_bucket : row ∈ bucket pos rows segment ↔ row ∈ rows ∧ row[pos]? = some segment := by
  simp [bucket]

theorem mem_bucketsAt {entry : String × List Row} : entry ∈ bucketsAt pos rows ↔
    entry.2 = bucket pos rows entry.1 ∧ ∃ row ∈ rows, row[pos]? = some entry.1 := by
  have hb : ∀ entry ∈ rows.filterMap fun row => row[pos]?.map fun segment =>
      (segment, rows.filter (·[pos]? = some segment)), entry.2 = bucket pos rows entry.1 := by
    intro entry hm
    have ⟨row, _, hr⟩ := List.mem_filterMap.mp hm
    have ⟨segment, _, he⟩ := Option.map_eq_some_iff.mp hr
    exact he ▸ rfl
  rw [bucketsAt, Fields.mem_ofList fun a ha b hs hn => Prod.ext hn (by rw [hb a ha, hb b hs, hn])]
  constructor
  case mp =>
    intro hm
    have ⟨row, hr, hs⟩ := List.mem_filterMap.mp hm
    have ⟨segment, hs, he⟩ := Option.map_eq_some_iff.mp hs
    exact ⟨hb entry hm, row, hr, he ▸ hs⟩
  case mpr =>
    intro ⟨he, row, hr, hs⟩
    exact List.mem_filterMap.mpr ⟨row, hr, by simp [hs, Prod.ext_iff, he, bucket]⟩

theorem mem_names_bucketsAt :
    segment ∈ (bucketsAt pos rows).names ↔ ∃ row ∈ rows, row[pos]? = some segment := by
  constructor
  case mp =>
    intro hs
    have ⟨entry, hm, he⟩ := List.mem_map.mp hs
    exact he ▸ (mem_bucketsAt.mp hm).2
  case mpr =>
    intro hs
    exact List.mem_map.mpr ⟨(segment, bucket pos rows segment), mem_bucketsAt.mpr ⟨rfl, hs⟩, rfl⟩

theorem bucketsAt_ascending : (bucketsAt pos rows).Ascending :=
  Fields.ofList_ascending _

theorem Meet.bucket (h : Meet length pos rows) (hr : row ∈ rows) (hs : row[pos]? = some segment) :
    Meet length (pos + 1) (bucket pos rows segment) where
  ne_nil := List.ne_nil_of_mem (mem_bucket.mpr ⟨hr, hs⟩)
  length_eq row hr := h.length_eq row (mem_bucket.mp hr).1
  agree row hr other ho := by
    have ⟨hr, hrs⟩ := mem_bucket.mp hr
    have ⟨ho, hos⟩ := mem_bucket.mp ho
    rw [List.take_add_one, List.take_add_one, h.agree row hr other ho, hrs, hos]

theorem Meet.exists_segment (h : Meet length pos rows) (hl : pos < length) (hr : row ∈ rows) :
    ∃ segment, row[pos]? = some segment := by
  have := h.length_eq row hr
  exact ⟨row[pos], List.getElem?_eq_getElem (by omega)⟩

-- With a star among the next segments, the rows without it are outranked, and those with it can only
-- be outranked by each other.
theorem Meet.survivors_of_wildcard (h : Meet length pos rows) (hl : pos < length)
    (hm : row ∈ rows) (hw : row[pos]? = some wildcard)
    (hk : Survivors (PathTree.bucket pos rows wildcard) kept) : Survivors rows kept where
  ascending := hk.ascending
  mem_iff path := by
    rw [hk.mem_iff, mem_bucket]
    constructor
    case mp =>
      intro ⟨⟨hp, hpw⟩, hn⟩
      refine ⟨hp, fun other ho hr => ?_⟩
      cases hr.at (h.agree other ho path hp)
      case inl ha => exact ha.2 hpw
      case inr ha => exact hn other (mem_bucket.mpr ⟨ho, ha.trans hpw⟩) hr
    case mpr =>
      intro ⟨hp, hn⟩
      have ⟨segment, hs⟩ := h.exists_segment hl hp
      have hsw : segment = wildcard := by
        by_contra hsw
        exact hn row hm ⟨pos, segment, h.agree row hm path hp, hw, hs, hsw⟩
      exact ⟨⟨hp, hsw ▸ hs⟩, fun other ho => hn other (mem_bucket.mp ho).1⟩

-- Without a star a row can only be outranked by one with the same next segment.
theorem Meet.survivors_of_no_wildcard (h : Meet length pos rows) (hl : pos < length)
    (hw : ∀ row ∈ rows, row[pos]? ≠ some wildcard) {segments : List String}
    (ha : segments.Pairwise (· < ·))
    (hs : ∀ segment, segment ∈ segments ↔ ∃ row ∈ rows, row[pos]? = some segment)
    (hk : ∀ segment ∈ segments, Survivors (PathTree.bucket pos rows segment) (kept segment)) :
    Survivors rows (segments.flatMap kept) where
  ascending := by
    refine List.pairwise_flatMap.mpr ⟨fun segment hm => (hk segment hm).ascending, ?_⟩
    refine ha.imp_of_mem fun {s t} hs ht hlt row hr other ho => ?_
    have ⟨hr, hrs⟩ := mem_bucket.mp ((hk s hs).mem_iff row |>.mp hr).1
    have ⟨ho, hot⟩ := mem_bucket.mp ((hk t ht).mem_iff other |>.mp ho).1
    exact lt_of_take_eq (h.agree row hr other ho) hrs hot hlt
  mem_iff path := by
    rw [List.mem_flatMap]
    constructor
    case mp =>
      intro ⟨segment, hs, hm⟩
      have ⟨hm, hn⟩ := (hk segment hs).mem_iff path |>.mp hm
      have ⟨hp, hps⟩ := mem_bucket.mp hm
      refine ⟨hp, fun other ho hr => ?_⟩
      cases hr.at (h.agree other ho path hp)
      case inl ha => exact hw other ho ha.1
      case inr ha => exact hn other (mem_bucket.mpr ⟨ho, ha.trans hps⟩) hr
    case mpr =>
      intro ⟨hp, hn⟩
      have ⟨segment, hps⟩ := h.exists_segment hl hp
      have hm := (hs segment).mpr ⟨path, hp, hps⟩
      refine ⟨segment, hm, (hk segment hm).mem_iff path |>.mpr ⟨mem_bucket.mpr ⟨hp, hps⟩, ?_⟩⟩
      exact fun other ho => hn other (mem_bucket.mp ho).1

theorem Meet.head_mem (h : Meet length pos rows) : rows.headD [] ∈ rows := by
  have ⟨row, rest, he⟩ := List.exists_cons_of_ne_nil h.ne_nil
  simp [he]

-- At the end of the rows only one of them is left.
theorem Meet.eq_head (h : Meet pos pos rows) (hr : row ∈ rows) : row = rows.headD [] := by
  have ha := h.agree row hr _ h.head_mem
  rwa [List.take_of_length_le (Nat.le_of_eq (h.length_eq row hr)),
    List.take_of_length_le (Nat.le_of_eq (h.length_eq _ h.head_mem))] at ha

theorem Meet.survivors_of_end (h : Meet pos pos rows) : Survivors rows [rows.headD []] where
  ascending := List.pairwise_singleton ..
  mem_iff path := by
    rw [List.mem_singleton]
    constructor
    case mp =>
      rintro rfl
      exact ⟨h.head_mem, fun other ho hr => (h.eq_head ho ▸ hr).not_refl⟩
    case mpr => exact fun hp => h.eq_head hp.1

def childrenAt (levels pos : Nat) (rows : List Row) : Fields PathTree :=
  (bucketsAt pos rows).map fun child => (child.1, grow levels child.2 (pos + 1))

theorem Meet.grow_succ (h : Meet length pos rows) (hl : length = pos + (levels + 1)) :
    grow (levels + 1) rows pos = .branch (childrenAt levels pos rows) := by
  have hr := h.length_eq _ h.head_mem
  rw [grow, if_neg (by omega)]
  rfl

theorem find?_childrenAt (segment : String) : (childrenAt levels pos rows).find? segment =
    ((bucketsAt pos rows).find? segment).map (grow levels · (pos + 1)) :=
  Fields.find?_map fun bucket => grow levels bucket (pos + 1)

theorem find?_bucketsAt_eq_none :
    (bucketsAt pos rows).find? segment = none ↔ ∀ row ∈ rows, row[pos]? ≠ some segment := by
  simp only [Fields.find?_eq_none, mem_names_bucketsAt, not_exists, not_and, ne_eq]

theorem find?_bucketsAt (hr : row ∈ rows) (hs : row[pos]? = some segment) :
    (bucketsAt pos rows).find? segment = some (bucket pos rows segment) := by
  cases hb : (bucketsAt pos rows).find? segment
  case none => exact absurd hs (find?_bucketsAt_eq_none.mp hb row hr)
  case some => exact congrArg some (mem_bucketsAt.mp (Fields.mem_of_find? hb)).1

theorem cover_childrenAt {kept : String → List Row}
    (hw : ∀ row ∈ rows, row[pos]? ≠ some wildcard)
    (hk : ∀ segment ∈ (bucketsAt pos rows).names,
      cover (grow levels (bucket pos rows segment) (pos + 1)) = (kept segment).map join) :
    cover (.branch (childrenAt levels pos rows)) =
      ((bucketsAt pos rows).names.flatMap kept).map join := by
  have hn : (childrenAt levels pos rows).find? wildcard = none := by
    rw [find?_childrenAt, find?_bucketsAt_eq_none.mpr hw, Option.map_none]
  rw [cover_branch_of_no_wildcard hn, childrenAt, Fields.names, List.map_flatMap, List.flatMap_map,
    List.flatMap_map]
  apply List.flatMap_congr
  intro entry hm
  rw [(mem_bucketsAt.mp hm).1]
  exact hk entry.1 (List.mem_map_of_mem hm)

-- The paths that the tree of some rows covers are those of the rows that survive.
theorem cover_grow (levels : Nat) (h : Meet length pos rows) (hl : length = pos + levels) :
    ∃ kept, cover (grow levels rows pos) = kept.map join ∧ Survivors rows kept := by
  induction levels generalizing pos rows
  case zero =>
    subst hl
    exact ⟨_, rfl, h.survivors_of_end⟩
  case succ levels hi =>
    rw [h.grow_succ hl]
    by_cases hw : ∀ row ∈ rows, row[pos]? ≠ some wildcard
    case pos =>
      have hb : ∀ segment ∈ (bucketsAt pos rows).names, ∃ kept,
          cover (grow levels (bucket pos rows segment) (pos + 1)) = kept.map join ∧
          Survivors (bucket pos rows segment) kept := by
        intro segment hs
        have ⟨row, hr, hs⟩ := mem_names_bucketsAt.mp hs
        exact hi (h.bucket hr hs) (by omega)
      choose! kept hk using hb
      refine ⟨_, cover_childrenAt hw fun segment hs => (hk segment hs).1, ?_⟩
      exact h.survivors_of_no_wildcard (by omega) hw (List.pairwise_map.mpr bucketsAt_ascending)
        (fun segment => mem_names_bucketsAt) fun segment hs => (hk segment hs).2
    case neg =>
      push Not at hw
      have ⟨row, hr, hw⟩ := hw
      have ⟨kept, hc, hk⟩ := hi (h.bucket hr hw) (by omega)
      refine ⟨kept, ?_, h.survivors_of_wildcard (by omega) hr hw hk⟩
      rw [← hc]
      apply cover_branch_of_wildcard
      rw [find?_childrenAt, find?_bucketsAt hr hw, Option.map_some]

theorem width_eq (hr : rows ≠ []) (hl : ∀ row ∈ rows, row.length = length) :
    width rows = length := by
  induction rows
  case nil => contradiction
  case cons row rest hi =>
    have hw : width (row :: rest) = max row.length (width rest) := rfl
    rw [hw, hl row List.mem_cons_self]
    by_cases hn : rest = []
    case pos => simp [hn, width]
    case neg => rw [hi hn fun row hr => hl row (List.mem_cons_of_mem _ hr), Nat.max_self]

theorem cover_ofRows (hr : rows ≠ []) (hl : ∀ row ∈ rows, row.length = length) :
    ∃ kept, cover (ofRows rows 0) = kept.map join ∧ Survivors rows kept := by
  rw [ofRows, width_eq hr hl]
  exact cover_grow length ⟨hr, hl, by simp⟩ (by omega)

end Entitlement.PathTree
