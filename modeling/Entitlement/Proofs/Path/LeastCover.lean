import Entitlement.Proofs.Path.Cover
import Entitlement.Proofs.Path.Pattern
/-!
Lists of paths in which nothing but stars follows a star. What such a list is reduced to covers all of
its paths, and no list of them can do so without each of the paths that are left.
-/

namespace Entitlement.Path

-- A star is followed by stars only.
def OpenEnded (row : List String) : Prop :=
  row.Pairwise fun segment later => segment = wildcard → later = wildcard

instance : DecidablePred OpenEnded :=
  fun _ => inferInstanceAs (Decidable (List.Pairwise _ _))

-- Each path of the first list is covered by one of the second.
def Covering (paths others : List String) : Prop :=
  ∀ path ∈ paths, ∃ other ∈ others, covers (segments other) (segments path)

-- Some of the paths of a list that cover all of it, and without any of which none of its paths do.
structure LeastCover (paths kept : List String) : Prop where
  subset : kept ⊆ paths
  nodup : kept.Nodup
  covering : Covering paths kept
  least : ∀ others ⊆ paths, Covering paths others → kept ⊆ others

variable {row other : List String} {paths kept : List String}

-- A pattern that covers another path has a star where they first differ.
theorem eq_or_outranks_of_covers (h : covers row other) : row = other ∨ Outranks row other := by
  induction row generalizing other
  case nil => cases other <;> simp_all [covers]
  case cons segment row hi =>
    cases other
    case nil => simp [covers] at h
    case cons next other =>
      obtain ⟨hs, h⟩ := covers_cons.mp h
      rw [outranks_cons]
      by_cases he : segment = next
      case pos =>
        obtain rfl | ho := hi h
        · exact .inl (he ▸ rfl)
        · exact .inr (.inr ⟨he, ho⟩)
      case neg =>
        have hw : segment = wildcard := hs.resolve_right he
        exact .inr (.inl ⟨hw, fun hn => he (hw.trans hn.symm)⟩)

theorem covers_of_wildcards (h : ∀ segment ∈ row, segment = wildcard)
    (hl : row.length = other.length) : covers row other := by
  induction row generalizing other
  case nil => cases other <;> simp_all [covers]
  case cons segment row hi =>
    cases other
    case nil => cases hl
    case cons next other =>
      obtain ⟨hs, h⟩ := List.forall_mem_cons.mp h
      exact covers_cons.mpr ⟨.inl hs, hi h (Nat.succ.inj hl)⟩

-- If nothing but stars follows it, the star that comes first stands for all of the rest.
theorem OpenEnded.covers (h : OpenEnded row) (ho : Outranks row other)
    (hl : row.length = other.length) : covers row other := by
  induction row generalizing other
  case nil => exact absurd ho not_nil_outranks
  case cons segment row hi =>
    cases other
    case nil => cases hl
    case cons next other =>
      obtain ⟨hs, h⟩ := List.pairwise_cons.mp h
      obtain ⟨hw, _⟩ | ⟨he, ho⟩ := outranks_cons.mp ho
      · exact covers_of_wildcards (List.forall_mem_cons.mpr ⟨hw, fun later hm => hs later hm hw⟩) hl
      · exact covers_cons.mpr ⟨.inr he, hi h ho (Nat.succ.inj hl)⟩

def literals (row : List String) : Nat :=
  row.countP (· ≠ wildcard)

theorem literals_eq_zero (h : ∀ segment ∈ row, segment = wildcard) : literals row = 0 := by
  simpa [literals, List.countP_eq_zero] using h

theorem literals_cons (segment : String) (row : List String) :
    literals (segment :: row) = literals row + if segment = wildcard then 0 else 1 := by
  simp [literals, List.countP_cons]

theorem OpenEnded.literals_lt (h : OpenEnded row) (ho : Outranks row other) :
    literals row < literals other := by
  induction row generalizing other
  case nil => exact absurd ho not_nil_outranks
  case cons segment row hi =>
    cases other
    case nil => exact absurd ho not_outranks_nil
    case cons next other =>
      obtain ⟨hs, h⟩ := List.pairwise_cons.mp h
      obtain ⟨hw, hn⟩ | ⟨he, ho⟩ := outranks_cons.mp ho
      · rw [literals_cons, literals_cons, literals_eq_zero fun later hm => hs later hm hw,
          if_pos hw, if_neg hn]
        exact Nat.succ_pos _
      · rw [literals_cons, literals_cons, he]
        exact Nat.add_lt_add_right (hi h ho) _

-- Among the paths that cover one there is one that is not outranked: whatever outranks a path has
-- fewer literals.
theorem exists_unrivalled_covers (hu : Unrivalled paths kept)
    (hc : ∀ path ∈ paths, ∀ other ∈ paths, count path = count other)
    (ho : ∀ path ∈ paths, OpenEnded (segments path)) (hp : path ∈ paths) :
    ∃ other ∈ kept, covers (segments other) (segments path) := by
  induction hn : literals (segments path) using Nat.strongRecOn generalizing path
  case ind n hi =>
    by_cases hr : ∀ other ∈ paths, ¬Outranks (segments other) (segments path)
    case pos => exact ⟨path, (hu.mem_iff path).mpr ⟨hp, hr⟩, covers_refl _⟩
    case neg =>
      push Not at hr
      have ⟨other, hm, hr⟩ := hr
      have hl := (ho other hm).literals_lt hr
      have ⟨last, hk, hs⟩ := hi _ (hn ▸ hl) hm rfl
      have hd : covers (segments other) (segments path) :=
        (ho other hm).covers hr (hc other hm path hp)
      exact ⟨last, hk, covers_trans hs hd⟩

-- Nothing but itself covers a path that is not outranked.
theorem Unrivalled.mem_of_covering (hu : Unrivalled paths kept) (hs : others ⊆ paths)
    (hc : Covering paths others) (hp : path ∈ kept) : path ∈ others := by
  have ⟨hm, hr⟩ := (hu.mem_iff path).mp hp
  have ⟨other, ho, hv⟩ := hc path hm
  obtain he | hv := eq_or_outranks_of_covers hv
  · exact segments_injective he ▸ ho
  · exact absurd hv (hr other (hs ho))

-- A list of paths of one length, with stars at their ends only, is reduced to the least of its parts
-- that cover it.
theorem cover?_least_of_open_ended (hn : paths ≠ [])
    (hc : ∀ path ∈ paths, ∀ other ∈ paths, count path = count other)
    (ho : ∀ path ∈ paths, OpenEnded (segments path)) :
    ∃ kept, cover? paths = .ok kept ∧ LeastCover paths kept := by
  obtain ⟨first, rest, rfl⟩ := List.exists_cons_of_ne_nil hn
  have ⟨kept, hk, hu⟩ := exists_unrivalled fun path hp => hc path hp first List.mem_cons_self
  refine ⟨kept, hk, fun path hp => ((hu.mem_iff path).mp hp).1, hu.nodup, ?covering, ?least⟩
  case covering => exact fun path hp => exists_unrivalled_covers hu hc ho hp
  case least => exact fun others hs hv path hp => hu.mem_of_covering hs hv hp

-- One star stands for another one, and a path is given twice.
theorem cover?_least_of_nested :
    let paths := ["a//b//c", "a//*//*", "b//c//*", "a//b//*", "b//c//d", "c//x//y", "c//x//y"]
    let kept := ["a//*//*", "b//c//*", "c//x//y"]
    cover? paths = .ok kept ∧ LeastCover paths kept := by
  intro paths kept
  have hc : ∀ path ∈ paths, ∀ other ∈ paths, count path = count other := by decide +kernel
  have ho : ∀ path ∈ paths, OpenEnded (segments path) := by decide +kernel
  have ⟨result, hk, hl⟩ := cover?_least_of_open_ended (by simp [paths]) hc ho
  have hr : cover? paths = .ok kept := by decide +kernel
  cases hk.symm.trans hr
  exact ⟨hr, hl⟩

end Entitlement.Path
