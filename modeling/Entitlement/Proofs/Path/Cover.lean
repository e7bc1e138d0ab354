import Entitlement.Proofs.Path.Split
import Entitlement.Proofs.PathTree
import Entitlement.Proofs.Text.Bytes
import Mathlib.Data.List.Sort
import Mathlib.Order.Basic
/-!
What a list of paths is reduced to, told without the tree, and that it is this for every list.
-/

namespace Entitlement.Path

def count (path : String) : Nat :=
  (segments path).length

-- The paths of a list that no path of the list outranks: each one once, and in the order of their
-- segments as bytes.
structure Unrivalled (paths kept : List String) : Prop where
  mem_iff : ∀ path, path ∈ kept ↔
    path ∈ paths ∧ ∀ other ∈ paths, ¬Outranks (segments other) (segments path)
  ascending : kept.Pairwise fun path other =>
    (segments path).map Text.bytes < (segments other).map Text.bytes

-- What a list of paths is reduced to.
inductive Reduced : List String → Except AccessError (List String) → Prop
  | empty : Reduced [] (.error .noPaths)
  | uneven {first before path after} (even : ∀ other ∈ before, count other = count first)
    (odd : count path ≠ count first) :
    Reduced (first :: before ++ path :: after)
      (.error (.unevenPath path (count first) (count path)))
  | even {first rest kept} (even : ∀ other ∈ rest, count other = count first)
    (unrivalled : Unrivalled (first :: rest) kept) : Reduced (first :: rest) (.ok kept)

theorem Unrivalled.unique (h : Unrivalled paths kept) (h' : Unrivalled paths kept') :
    kept = kept' := by
  have : Std.Asymm fun path other : String =>
      (segments path).map Text.bytes < (segments other).map Text.bytes :=
    ⟨fun _ _ => List.lt_asymm⟩
  exact h.ascending.eq_of_mem_iff h'.ascending fun path =>
    (h.mem_iff path).trans (h'.mem_iff path).symm

theorem Unrivalled.nodup (h : Unrivalled paths kept) : kept.Nodup := by
  refine h.ascending.imp ?_
  rintro path _ hlt rfl
  exact List.lt_irrefl _ hlt

theorem rows?_cons (h : count path = n) :
    rows? n (path :: rest) = (segments path :: ·) <$> rows? n rest :=
  if_pos h

theorem rows?_eq_ok (h : ∀ path ∈ paths, count path = n) :
    rows? n paths = .ok (paths.map segments) := by
  induction paths
  case nil => rfl
  case cons path rest hi =>
    rw [rows?_cons (h path List.mem_cons_self), hi fun path hp => h path (.tail _ hp)]
    rfl

theorem rows?_eq_error (h : ∀ other ∈ before, count other = n) (hp : count path ≠ n) :
    rows? n (before ++ path :: after) = .error (.unevenPath path n (count path)) := by
  induction before
  case nil => exact if_neg hp
  case cons other before hi =>
    rw [List.cons_append, rows?_cons (h other List.mem_cons_self),
      hi fun other ho => h other (.tail _ ho)]
    rfl

theorem unrivalled_of_survivors (h : Survivors (paths.map segments) rows) :
    Unrivalled paths (rows.map join) := by
  have hr : ∀ row ∈ rows, segments (join row) = row := by
    intro row hr
    have ⟨path, _, hp⟩ := List.mem_map.mp (h.mem_iff row |>.mp hr).1
    rw [← hp, join_segments]
  constructor
  case mem_iff =>
    intro path
    have hm : path ∈ rows.map join ↔ segments path ∈ rows := by
      constructor
      case mp =>
        intro hp
        have ⟨row, hm, he⟩ := List.mem_map.mp hp
        rwa [← he, hr row hm]
      case mpr => exact fun hm => List.mem_map.mpr ⟨segments path, hm, join_segments path⟩
    rw [hm, h.mem_iff, List.mem_map_of_injective segments_injective, List.forall_mem_map]
  case ascending =>
    refine List.pairwise_map.mpr (h.ascending.imp_of_mem fun {row other} hm ho hlt => ?_)
    rw [hr row hm, hr other ho]
    exact Text.map_bytes_lt hlt

theorem exists_unrivalled (h : ∀ path ∈ first :: rest, count path = count first) :
    ∃ kept, cover? (first :: rest) = .ok kept ∧ Unrivalled (first :: rest) kept := by
  have hl : ∀ row ∈ (first :: rest).map segments, row.length = count first := by
    simpa [count] using h
  have ⟨rows, hc, hs⟩ := PathTree.cover_ofRows (by simp) hl
  refine ⟨rows.map join, ?_, unrivalled_of_survivors hs⟩
  rw [cover?, ← count, rows?_eq_ok h, ← hc]
  rfl

theorem Reduced.cover?_eq (h : Reduced paths result) : cover? paths = result := by
  cases h
  case empty => rfl
  case uneven first before path after even odd =>
    have h : ∀ other ∈ first :: before, count other = count first := by simpa using even
    rw [List.cons_append, cover?, ← count, ← List.cons_append, rows?_eq_error h odd]
    rfl
  case even first rest kept even unrivalled =>
    have he : ∀ path ∈ first :: rest, count path = count first := by simpa using even
    have ⟨kept', hc, hu⟩ := exists_unrivalled he
    rw [hc, unrivalled.unique hu]

theorem Reduced.exists (paths : List String) : ∃ result, Reduced paths result := by
  cases paths
  case nil => exact ⟨_, .empty⟩
  case cons first rest =>
    by_cases h : ∀ other ∈ rest, count other = count first
    case pos =>
      have he : ∀ path ∈ first :: rest, count path = count first := by simpa using h
      have ⟨kept, _, hu⟩ := exists_unrivalled he
      exact ⟨_, .even h hu⟩
    case neg =>
      push Not at h
      have hs : (rest.find? fun path => count path ≠ count first).isSome := by simpa using h
      have ⟨path, hf⟩ := Option.isSome_iff_exists.mp hs
      have ⟨hp, before, after, hr, ho⟩ := List.find?_eq_some_iff_append.mp hf
      exact hr ▸ ⟨_, .uneven (by simpa using ho) (by simpa using hp)⟩

-- Reducing a list of paths fails on an empty list and on the first path whose count of segments is
-- not that of the list's first one; otherwise just the paths are left that are not outranked.
theorem cover?_eq_iff_reduced (paths : List String) (result : Except AccessError (List String)) :
    cover? paths = result ↔ Reduced paths result := by
  constructor
  case mp =>
    intro h
    have ⟨result', hr⟩ := Reduced.exists paths
    rwa [← h, hr.cover?_eq]
  case mpr => exact Reduced.cover?_eq

end Entitlement.Path
