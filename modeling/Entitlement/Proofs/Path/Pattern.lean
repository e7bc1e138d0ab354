import Entitlement.Proofs.Path.Split
import Mathlib.Algebra.Order.BigOperators.Group.List
import Mathlib.Algebra.Order.Group.Nat
/-!
Patterns and the paths they stand for. With one fresh text in the place of every star a pattern
becomes a path, and only those patterns stand for that path which stand for the pattern itself.
-/

namespace Entitlement.Path

theorem covers_refl (path : List String) : covers path path := by
  induction path
  case nil => rfl
  case cons segment path hi => simp [covers, hi]

theorem covers_cons :
    covers (p :: pattern) (s :: path) ↔ (p = wildcard ∨ p = s) ∧ covers pattern path := by
  simp [covers]

theorem covers_trans {pattern middle path : List String} (h : covers pattern middle)
    (h' : covers middle path) : covers pattern path := by
  induction pattern generalizing middle path
  case nil => cases middle <;> simp_all [covers]
  case cons p pattern hi =>
    match middle, path with
    | [], _ => simp [covers] at h
    | _ :: _, [] => simp [covers] at h'
    | m :: middle, s :: path =>
      have ⟨hp, h⟩ := covers_cons.mp h
      have ⟨hm, h'⟩ := covers_cons.mp h'
      refine covers_cons.mpr ⟨?_, hi h h'⟩
      cases hp
      case inl hp => exact .inl hp
      case inr hp => exact hp ▸ hm

-- Puts a text in the place of every star.
def fill (filler : String) (pattern : List String) : List String :=
  pattern.map fun segment => if segment = wildcard then filler else segment

theorem covers_fill (filler : String) (pattern : List String) :
    covers pattern (fill filler pattern) := by
  induction pattern
  case nil => rfl
  case cons segment pattern hi =>
    refine covers_cons.mpr ⟨?_, hi⟩
    by_cases h : segment = wildcard <;> simp [h]

-- A pattern without the filler can only cover a star's place with a star.
theorem covers_of_covers_fill {pattern other : List String} (hf : filler ∉ pattern)
    (h : covers pattern (fill filler other)) : covers pattern other := by
  induction pattern generalizing other
  case nil => cases other <;> simp_all [covers, fill]
  case cons p pattern hi =>
    match other with
    | [] => simp [covers, fill] at h
    | s :: other =>
      have ⟨hp, h⟩ := covers_cons.mp h
      refine covers_cons.mpr ⟨?_, hi (fun hm => hf (.tail _ hm)) h⟩
      cases hp
      case inl hp => exact .inl hp
      case inr hp =>
        by_cases hs : s = wildcard
        case pos => exact absurd (by simp [hp, hs]) hf
        case neg => simp_all

-- Segments without slashes do not disturb the separators beside them.
theorem segments_join_fill (hf : '/' ∉ filler.toList) (path : String) :
    segments (join (fill filler (segments path))) = fill filler (segments path) := by
  apply segments_join
  let f (segment : List Char) :=
    if segment = wildcard.toList then filler.toList else segment
  have h : Joinable ((split path.toList).map f) := by
    apply (joinable_split path.toList).map
    intro segment
    by_cases hs : segment = wildcard.toList
    case pos => exact .inr (by simpa [f, hs] using hf)
    case neg => exact .inl (if_neg hs)
  have hl : (fill filler (segments path)).map String.toList = (split path.toList).map f := by
    simp only [fill, segments, List.map_map]
    apply List.map_congr_left
    intro segment _
    have hs : String.ofList segment = wildcard ↔ segment = wildcard.toList := by
      rw [← String.toList_inj, String.toList_ofList]
    by_cases h : segment = wildcard.toList <;> simp [f, h, hs]
  exact hl ▸ h

theorem exists_filler (texts : List String) :
    ∃ filler : String, '/' ∉ filler.toList ∧ filler ∉ texts := by
  let n := (texts.map String.length).sum
  refine ⟨String.ofList (List.replicate (n + 1) 'x'), by simp, fun hm => ?_⟩
  have hl := List.le_sum_of_mem (List.mem_map_of_mem (f := String.length) hm)
  simp at hl
  omega

end Entitlement.Path
