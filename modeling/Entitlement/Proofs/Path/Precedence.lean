import Entitlement.Path
import Mathlib.Data.List.Basic
/-!
Which of two paths a star puts first, and what is left of a list of paths once those that come
second are gone.
-/

namespace Entitlement.Path

-- One path outranks another one if it has a star where they first differ.
def Outranks (path other : List String) : Prop :=
  ∃ k segment, path.take k = other.take k ∧ path[k]? = some wildcard ∧ other[k]? = some segment ∧
    segment ≠ wildcard

theorem getElem?_eq_of_take_eq {path other : List String} (h : path.take k = other.take k)
    (hl : pos < k) : path[pos]? = other[pos]? := by
  have ht := congrArg (·[pos]?) h
  simpa [List.getElem?_take, hl] using ht

theorem lt_of_take_eq {path other : List String} (h : path.take k = other.take k)
    (hp : path[k]? = some s) (ho : other[k]? = some t) (hlt : s < t) : path < other := by
  have ⟨hkp, hp⟩ := List.getElem?_eq_some_iff.mp hp
  have ⟨hko, ho⟩ := List.getElem?_eq_some_iff.mp ho
  refine List.lt_iff_exists.mpr (.inr ⟨k, hkp, hko, fun j hj => ?_, by rwa [hp, ho]⟩)
  have he := getElem?_eq_of_take_eq h hj
  rwa [List.getElem?_eq_getElem, List.getElem?_eq_getElem, Option.some.injEq] at he

theorem Outranks.not_refl : ¬Outranks path path := by
  rintro ⟨k, segment, _, hp, ho, hs⟩
  exact hs (Option.some.inj (ho.symm.trans hp))

theorem Outranks.at {path other : List String} (h : Outranks path other)
    (ht : path.take pos = other.take pos) :
    (path[pos]? = some wildcard ∧ other[pos]? ≠ some wildcard) ∨ path[pos]? = other[pos]? := by
  obtain ⟨k, segment, hk, hp, ho, hs⟩ := h
  obtain hlt | rfl | hlt := Nat.lt_trichotomy k pos
  · have he := getElem?_eq_of_take_eq ht hlt
    simp_all
  · exact .inl ⟨hp, by simp [ho, hs]⟩
  · exact .inr (getElem?_eq_of_take_eq hk hlt)

theorem outranks_cons {segment next : String} : Outranks (segment :: path) (next :: other) ↔
    (segment = wildcard ∧ next ≠ wildcard) ∨ segment = next ∧ Outranks path other := by
  constructor
  case mp =>
    rintro ⟨k, last, hk, hp, ho, hl⟩
    cases k
    case zero =>
      simp only [List.getElem?_cons_zero, Option.some.injEq] at hp ho
      exact .inl ⟨hp, ho ▸ hl⟩
    case succ k =>
      simp only [List.take_succ_cons, List.cons.injEq] at hk
      exact .inr ⟨hk.1, k, last, hk.2, by simpa using hp, by simpa using ho, hl⟩
  case mpr =>
    rintro (⟨rfl, hn⟩ | ⟨rfl, k, last, hk, hp, ho, hl⟩)
    · exact ⟨0, next, rfl, rfl, rfl, hn⟩
    · exact ⟨k + 1, last, by simp [hk], by simpa using hp, by simpa using ho, hl⟩

theorem not_nil_outranks : ¬Outranks [] other := by
  rintro ⟨k, segment, _, hp, _⟩
  simp at hp

theorem not_outranks_nil : ¬Outranks path [] := by
  rintro ⟨k, segment, _, _, ho, _⟩
  simp at ho

instance decidableOutranks : (path other : List String) → Decidable (Outranks path other)
  | [], _ => .isFalse not_nil_outranks
  | _ :: _, [] => .isFalse not_outranks_nil
  | _ :: path, _ :: other =>
    have := decidableOutranks path other
    decidable_of_iff' _ outranks_cons

-- What is left of a list of paths once those that are outranked are gone, each once and in order.
structure Survivors (paths kept : List (List String)) : Prop where
  ascending : kept.Pairwise (· < ·)
  mem_iff : ∀ path, path ∈ kept ↔ path ∈ paths ∧ ∀ other ∈ paths, ¬Outranks other path

end Entitlement.Path
