import Entitlement.Path
import Mathlib.Data.List.Infix
/-!
Splitting a path and joining its segments undo each other, as long as no separator arises where two
segments meet.
-/

namespace Entitlement.Path

def separator : List Char := ['/', '/']

-- Segments that can stand in one path: no separator begins in a segment or, save for the last one,
-- at its end.
inductive Joinable : List (List Char) → Prop
  | last {segment : List Char} (h : ¬separator <:+: segment) : Joinable [segment]
  | cons {segment : List Char} {rest} (h : ¬separator <:+: segment ++ ['/'])
    (joinable : Joinable rest) : Joinable (segment :: rest)

variable {segment : List Char}

theorem Joinable.ne_nil : Joinable list → list ≠ []
  | last _ | cons .. => by simp

theorem split_cons (h : ¬separator <+: c :: path) :
    split (c :: path) = split.extend c (split path) := by
  refine split.eq_3 _ _ fun rest hc hp => h ?_
  simp [hc, hp, separator]

theorem split_eq_singleton (h : ¬separator <:+: path) : split path = [path] := by
  induction path
  case nil => rfl
  case cons c path hi =>
    have hp : ¬separator <+: c :: path := fun hp => h hp.isInfix
    have ht : ¬separator <:+: path := fun ht => h (List.infix_cons ht)
    rw [split_cons hp, hi ht, split.extend]

-- The separator after a segment is the first one of the path.
theorem split_append_separator (h : ¬separator <:+: segment ++ ['/']) :
    split (segment ++ (separator ++ path)) = segment :: split path := by
  induction segment
  case nil => simp [separator, split]
  case cons c segment hi =>
    have ht : ¬separator <:+: segment ++ ['/'] := fun ht => h (List.infix_cons ht)
    have hp : ¬separator <+: c :: (segment ++ (separator ++ path)) := by
      refine fun hp => h (List.IsPrefix.isInfix ?_)
      cases segment <;> simpa [separator] using hp
    rw [List.cons_append, split_cons hp, hi ht, split.extend]

theorem split_intercalate (h : Joinable list) : split (separator.intercalate list) = list := by
  induction h
  case last h => simp [split_eq_singleton h]
  case cons segment rest h joinable hi =>
    obtain ⟨next, rest, rfl⟩ := List.exists_cons_of_ne_nil joinable.ne_nil
    rw [List.intercalate_cons_cons, List.append_assoc, split_append_separator h, hi]

theorem intercalate_extend (h : list ≠ []) :
    separator.intercalate (split.extend c list) = c :: separator.intercalate list := by
  obtain ⟨segment, rest, rfl⟩ := List.exists_cons_of_ne_nil h
  cases rest <;> simp [split.extend]

theorem intercalate_split (path : List Char) : separator.intercalate (split path) = path := by
  fun_induction split path
  case case1 => rfl
  case case2 rest hi =>
    obtain ⟨segment, list, h⟩ := List.exists_cons_of_ne_nil (split_ne_nil rest)
    rw [h] at hi ⊢
    rw [List.intercalate_cons_cons, hi]
    rfl
  case case3 c rest _ hi => rw [intercalate_extend (split_ne_nil rest), hi]

theorem Joinable.extend (h : Joinable list)
    (hn : ¬separator <+: c :: separator.intercalate list) : Joinable (split.extend c list) := by
  cases h
  case last segment h =>
    refine .last fun hs => ?_
    obtain hp | ht := List.infix_cons_iff.mp hs
    · exact hn (by simpa using hp)
    · exact h ht
  case cons segment rest h joinable =>
    refine .cons (fun hs => ?_) joinable
    obtain hp | ht := List.infix_cons_iff.mp hs
    · obtain ⟨next, rest, rfl⟩ := List.exists_cons_of_ne_nil joinable.ne_nil
      refine hn (hp.trans ?_)
      rw [List.intercalate_cons_cons]
      exact ⟨'/' :: separator.intercalate (next :: rest), by simp [separator]⟩
    · exact h ht

theorem joinable_split (path : List Char) : Joinable (split path) := by
  fun_induction split path
  case case1 => exact .last (by simp [separator])
  case case2 rest hi => exact .cons (by simp [separator, List.infix_cons_iff]) hi
  case case3 c rest hn hi =>
    apply hi.extend
    rw [intercalate_split]
    rintro ⟨path, hp⟩
    obtain ⟨rfl, rfl⟩ := List.cons.inj hp
    exact hn path rfl rfl

theorem not_infix_of_slash_not_mem (h : '/' ∉ segment) :
    ¬separator <:+: segment ∧ ¬separator <:+: segment ++ ['/'] := by
  constructor
  case left => exact fun hs => h (hs.subset (by simp [separator]))
  case right =>
    intro hs
    induction segment
    case nil => simp [separator, List.infix_cons_iff] at hs
    case cons c segment hi =>
      obtain hp | ht := List.infix_cons_iff.mp hs
      · have hc := (List.cons_prefix_cons.mp hp).1
        exact h (hc ▸ List.mem_cons_self)
      · exact hi (fun hm => h (List.mem_cons_of_mem c hm)) ht

-- A text without slashes can take the place of any segment.
theorem Joinable.map (h : Joinable list) (hf : ∀ segment, f segment = segment ∨ '/' ∉ f segment) :
    Joinable (list.map f) := by
  induction h
  case last segment h =>
    refine .last ?_
    cases hf segment
    case inl hf => exact hf.symm ▸ h
    case inr hf => exact (not_infix_of_slash_not_mem hf).1
  case cons segment rest h _ hi =>
    refine .cons ?_ hi
    cases hf segment
    case inl hf => exact hf.symm ▸ h
    case inr hf => exact (not_infix_of_slash_not_mem hf).2

theorem toList_join (list : List String) :
    (join list).toList = separator.intercalate (list.map String.toList) :=
  String.toList_intercalate

theorem join_segments (path : String) : join (segments path) = path := by
  rw [← String.toList_inj, toList_join, segments, List.map_map]
  simp [Function.comp_def, intercalate_split]

theorem segments_injective : segments.Injective :=
  Function.LeftInverse.injective join_segments

theorem segments_join (h : Joinable (list.map String.toList)) : segments (join list) = list := by
  rw [segments, toList_join, split_intercalate h, List.map_map]
  simp [Function.comp_def]

end Entitlement.Path
