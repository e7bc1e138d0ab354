import Entitlement.Proofs.Path.LeastCover
/-!
What a list of paths is reduced to is a normal form: no path in it covers another one, it is reduced
to itself, and it depends on nothing but which paths are in the list.
-/

namespace Entitlement

-- No item of a list stands for one in another place.
def Irredundant (standsFor : α → α → Prop) (list : List α) : Prop :=
  list.Pairwise fun a b => ¬standsFor a b ∧ ¬standsFor b a

-- It is enough that an item stands for those with its own key alone, where each key occurs once.
theorem irredundant_of_nodup {standsFor : α → α → Prop} {list : List α} {key : α → β}
    (h : (list.map key).Nodup) (he : ∀ a ∈ list, ∀ b ∈ list, standsFor a b → key a = key b) :
    Irredundant standsFor list := by
  have hk : list.Pairwise fun a b => key a ≠ key b := List.pairwise_map.mp h
  refine hk.imp_of_mem fun {a b} ha hb hne => ⟨fun hs => ?_, fun hs => ?_⟩
  · exact hne (he a ha b hb hs)
  · exact hne (he b hb a ha hs).symm

namespace Path

variable {row middle other : List String} {rows : List (List String)}
  {paths others kept : List String} {path another : String}

theorem Outranks.trans (h : Outranks row middle) (hm : Outranks middle other) :
    Outranks row other := by
  induction row generalizing middle other
  case nil => exact absurd h not_nil_outranks
  case cons segment row hi =>
    match middle, other with
    | [], _ => exact absurd h not_outranks_nil
    | _ :: _, [] => exact absurd hm not_outranks_nil
    | next :: middle, last :: other =>
      rw [outranks_cons] at *
      cases h
      case inl h =>
        cases hm
        case inl hm => exact absurd hm.1 h.2
        case inr hm => exact .inl ⟨h.1, hm.1 ▸ h.2⟩
      case inr h =>
        cases hm
        case inl hm => exact .inl ⟨h.1.trans hm.1, hm.2⟩
        case inr hm => exact .inr ⟨h.1.trans hm.1, hi h.2 hm.2⟩

-- Outranking is transitive and outranks no row by itself, so that it comes to an end in a list.
theorem exists_not_outranked (h : rows ≠ []) : ∃ row ∈ rows, ∀ other ∈ rows, ¬Outranks other row := by
  induction rows
  case nil => contradiction
  case cons row rest hi =>
    by_cases hr : rest = []
    case pos => exact ⟨row, by simp, by simp [hr, Outranks.not_refl]⟩
    case neg =>
      have ⟨least, hm, hl⟩ := hi hr
      by_cases ho : Outranks row least
      case pos =>
        have hn : ∀ other ∈ rest, ¬Outranks other row := fun other hm h => hl other hm (h.trans ho)
        exact ⟨row, List.mem_cons_self, List.forall_mem_cons.mpr ⟨Outranks.not_refl, hn⟩⟩
      case neg => exact ⟨least, .tail _ hm, List.forall_mem_cons.mpr ⟨ho, hl⟩⟩

namespace Unrivalled

theorem subset (h : Unrivalled paths kept) : kept ⊆ paths :=
  fun path hp => ((h.mem_iff path).mp hp).1

theorem ne_nil (h : Unrivalled paths kept) (hn : paths ≠ []) : kept ≠ [] := by
  have hr : paths.map segments ≠ [] := by simpa
  have ⟨row, hr, ho⟩ := exists_not_outranked hr
  have ⟨path, hp, he⟩ := List.mem_map.mp hr
  have hk : path ∈ kept := by
    refine (h.mem_iff path).mpr ⟨hp, fun other hm => ?_⟩
    rw [he]
    exact ho _ (List.mem_map_of_mem hm)
  exact List.ne_nil_of_mem hk

-- What no path of a list outranks, no path of a part of the list does.
theorem again (h : Unrivalled paths kept) : Unrivalled kept kept where
  mem_iff path := by
    refine ⟨fun hp => ⟨hp, fun other ho => ?_⟩, And.left⟩
    exact ((h.mem_iff path).mp hp).2 other (h.subset ho)
  ascending := h.ascending

theorem congr (h : Unrivalled paths kept) (hs : ∀ path, path ∈ others ↔ path ∈ paths) :
    Unrivalled others kept where
  mem_iff path := by simp [h.mem_iff, hs]
  ascending := h.ascending

theorem eq_of_covers (h : Unrivalled paths kept) (hp : path ∈ kept) (ha : another ∈ kept)
    (hc : covers (segments path) (segments another)) : path = another := by
  cases eq_or_outranks_of_covers hc
  case inl he => exact segments_injective he
  case inr ho => exact absurd ho (((h.mem_iff another).mp ha).2 path (h.subset hp))

theorem irredundant (h : Unrivalled paths kept) :
    Irredundant (fun path other => covers (segments path) (segments other)) kept := by
  have hk : (kept.map id).Nodup := by simpa using h.nodup
  exact irredundant_of_nodup hk fun _ hp _ ho hc => h.eq_of_covers hp ho hc

end Unrivalled

theorem cover?_eq_ok_iff : cover? paths = .ok kept ↔
    paths ≠ [] ∧ (∀ path ∈ paths, ∀ other ∈ paths, count path = count other) ∧
      Unrivalled paths kept := by
  constructor
  case mp =>
    intro h
    have ⟨result, hr⟩ := Reduced.exists paths
    cases hr.cover?_eq.symm.trans h
    cases hr
    case even first rest even unrivalled =>
      have he : ∀ path ∈ first :: rest, count path = count first := by simpa using even
      exact ⟨by simp, fun path hp other ho => (he path hp).trans (he other ho).symm, unrivalled⟩
  case mpr =>
    intro ⟨hn, hc, hu⟩
    obtain ⟨first, rest, rfl⟩ := List.exists_cons_of_ne_nil hn
    have ⟨other, ho, hv⟩ := exists_unrivalled fun path hp => hc path hp first List.mem_cons_self
    rw [ho, hv.unique hu]

theorem cover?_again (h : cover? paths = .ok kept) : cover? kept = .ok kept := by
  have ⟨hn, hc, hu⟩ := cover?_eq_ok_iff.mp h
  have he : ∀ path ∈ kept, ∀ other ∈ kept, count path = count other :=
    fun path hp other ho => hc path (hu.subset hp) other (hu.subset ho)
  exact cover?_eq_ok_iff.mpr ⟨hu.ne_nil hn, he, hu.again⟩

theorem cover?_congr (h : cover? paths = .ok kept) (hs : ∀ path, path ∈ others ↔ path ∈ paths) :
    cover? others = .ok kept := by
  have ⟨hn, hc, hu⟩ := cover?_eq_ok_iff.mp h
  have ho : others ≠ [] := by simpa [List.eq_nil_iff_forall_not_mem, hs] using hn
  exact cover?_eq_ok_iff.mpr ⟨ho, by simpa [hs] using hc, hu.congr hs⟩

end Path
end Entitlement
