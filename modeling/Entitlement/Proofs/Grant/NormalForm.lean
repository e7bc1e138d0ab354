import Entitlement.Proofs.Grant.Selection
import Entitlement.Proofs.Path.NormalForm
/-!
What a list of grants is compacted to is a normal form. No two grants of it are alike and none
overrides another one, so that within an action none permits what another one asks for; lists of
this kind are compacted to themselves. Its keys depend on nothing but which grants are in the list.
-/

namespace Entitlement

open Entitlement.Path (covers cover?)
open Text (lowercase)

variable {grants others : List Grant} {grant other : Grant} {paths otherPaths kept : List String}

namespace Grant

theorem kind_eq (ht : lowercase grant.objectType = lowercase other.objectType)
    (hd : lowercase grant.definition = lowercase other.definition)
    (ha : lowercase grant.action = lowercase other.action)
    (hp : grant.pattern.length = other.pattern.length) : grant.kind = other.kind := by
  have hl : grant.segments.length = other.segments.length := by
    simpa [pattern, segments, Text.length_segments_lowercase] using hp
  simp [kind, ht, hd, ha, hl]

-- Within an action a grant permits what another one asks for only if it is like it or overrides it.
theorem Permits.alike_or_overrides (h : grant.Permits other.asRequest)
    (ha : lowercase grant.action = lowercase other.action) :
    grant.Alike other ∨ grant.Overrides other := by
  have hc : covers grant.pattern other.pattern := h.path
  cases Path.eq_or_outranks_of_covers hc
  case inl he => exact .inl ⟨h.objectType, h.definition, ha, Path.segments_injective he⟩
  case inr ho => exact .inr ⟨kind_eq h.objectType h.definition ha (Path.covers_length hc), ho⟩

end Grant

-- No two grants are alike, and none overrides another one.
structure Normal (grants : List Grant) : Prop where
  nodup : (grants.map Grant.key).Nodup
  upheld : ∀ grant ∈ grants, ¬Overridden grants grant

namespace Normal

theorem unlike (h : Normal grants) : grants.Pairwise fun grant other => ¬grant.Alike other := by
  simpa [List.Nodup, List.pairwise_map, Grant.alike_iff] using h.nodup

theorem key_eq_of_permits (h : Normal grants) (hg : grant ∈ grants) (ho : other ∈ grants)
    (ha : lowercase grant.action = lowercase other.action)
    (hp : grant.permits other.asRequest) : grant.key = other.key := by
  cases (Grant.permits_iff.mp hp).alike_or_overrides ha
  case inl ha => exact Grant.alike_iff.mp ha
  case inr hv => exact absurd ⟨grant, hg, hv⟩ (h.upheld other ho)

theorem irredundant (h : Normal grants) :
    Irredundant (fun grant other => lowercase grant.action = lowercase other.action ∧
      grant.permits other.asRequest) grants :=
  irredundant_of_nodup h.nodup fun _ hg _ ho ⟨ha, hp⟩ => h.key_eq_of_permits hg ho ha hp

-- Every grant of the list is retained where it is.
theorem retained_eq (h : Normal grants) : retained grants = grants := by
  have hr : ∀ entry ∈ grants.zipIdx, Retained grants entry.2 entry.1 := by
    intro (grant, place) hm
    have ⟨hp, he⟩ := List.getElem?_eq_some_iff.mp (List.mem_zipIdx_iff_getElem?.mp hm)
    constructor
    case first =>
      intro earlier hi
      have ⟨i, hl, hi⟩ := List.mem_take_iff_getElem.mp hi
      have hu := List.pairwise_iff_getElem.mp h.unlike i place (by omega) hp (by omega)
      simpa [hi, he] using hu
    case upheld => exact h.upheld grant (List.mem_of_getElem he)
  rw [retained, List.filter_eq_self.mpr (by simpa using hr), List.zipIdx_map_fst]

end Normal

namespace Compaction

-- A key that was taken is not left for a later grant.
theorem nodup_claim {left : List (Kind × String)} (h : left.Nodup) (grants : List Grant) :
    ((claim left (grants.map fun g => (g, g.key))).map Grant.key).Nodup := by
  induction grants generalizing left
  case nil => exact List.nodup_nil
  case cons grant rest hi =>
    rw [List.map_cons, claim]
    split
    case isTrue hm =>
      rw [List.map_cons, List.nodup_cons]
      constructor
      case left =>
        intro ht
        obtain ⟨other, ho, he⟩ := List.mem_map.mp ht
        obtain ⟨key, hk, hm⟩ := mem_of_mem_claim ho
        have hk : other.key ∈ left.erase grant.key := by simp_all
        exact h.not_mem_erase (he ▸ hk)
      case right => exact hi (h.erase _)
    case isFalse => exact hi h

end Compaction

theorem normal_compacted (grants : List Grant) : Normal (compacted grants) where
  nodup := by
    have hk := measured_of_mem_keys grants
    exact Compaction.nodup_claim (Compaction.nodup_survivorsIn hk (nodup_eraseDups _)) grants
  upheld grant hg := by
    intro ⟨other, ho, hv⟩
    exact not_overridden_of_mem_compacted hg ⟨other, mem_of_mem_compacted ho, hv⟩

theorem compacted_of_normal (h : Normal grants) : compacted grants = grants := by
  have hr : compacted grants = retained grants := (enumerates_eraseDups grants).compactedBy_eq
  rw [hr, h.retained_eq]

-- Nothing is left in a reduced list that another item of it makes redundant.
theorem compacted_irredundant (grants : List Grant) (hk : cover? paths = .ok kept) :
    Irredundant (fun grant other => lowercase grant.action = lowercase other.action ∧
      grant.permits other.asRequest) (compacted grants) ∧
    Irredundant (fun path other => covers (Path.segments path) (Path.segments other)) kept :=
  ⟨(normal_compacted grants).irredundant, (Path.cover?_eq_ok_iff.mp hk).2.2.irredundant⟩

-- Names stand behind the stars, and the grant for all actions stays beside the one that it contains.
theorem irredundant_behind_stars :
    let grants : List Grant := [⟨1, 1, "service", "Svc", "a//*//c", 1, "view"⟩,
      ⟨2, 1, "SERVICE", "svc", "A//*//D", 1, "View"⟩, ⟨3, 1, "service", "Svc", "a//b//e", 1, "view"⟩,
      ⟨4, 1, "service", "Svc", "*//*//c", 1, "*"⟩]
    let paths := ["a//*//d", "*//b//e", "*//b//c", "*//b//e"]
    let kept := ["*//b//c", "*//b//e"]
    cover? paths = .ok kept ∧ (compacted grants).map Grant.id = [1, 2, 4] ∧
      Irredundant (fun grant other => lowercase grant.action = lowercase other.action ∧
        grant.permits other.asRequest) (compacted grants) ∧
      Irredundant (fun path other => covers (Path.segments path) (Path.segments other)) kept := by
  intro grants paths kept
  have hk : cover? paths = .ok kept := by decide +kernel
  have ⟨hg, hp⟩ := compacted_irredundant grants hk
  exact ⟨hk, by decide +kernel, hg, hp⟩

theorem key_mem_compacted (hs : ∀ grant, grant ∈ others ↔ grant ∈ grants)
    (hk : key ∈ (compacted grants).map Grant.key) : key ∈ (compacted others).map Grant.key := by
  have ⟨grant, hg, he⟩ := List.mem_map.mp hk
  have hn : ¬Overridden others grant := by
    simpa [Overridden, hs] using not_overridden_of_mem_compacted hg
  have ⟨other, ho, hk⟩ := exists_mem_compacted ((hs grant).mpr (mem_of_mem_compacted hg)) hn
  exact List.mem_map.mpr ⟨other, ho, hk.trans he⟩

theorem perm_keys_compacted (hs : ∀ grant, grant ∈ others ↔ grant ∈ grants) :
    ((compacted others).map Grant.key).Perm ((compacted grants).map Grant.key) := by
  apply (List.perm_ext_iff_of_nodup (normal_compacted others).nodup
    (normal_compacted grants).nodup).mpr
  intro key
  constructor
  case mp => exact key_mem_compacted fun grant => (hs grant).symm
  case mpr => exact key_mem_compacted hs

-- A reduced list is reduced to itself. Paths that are given in another order or repeated come to the
-- same list, and grants to one with the same keys.
theorem reduction_settles (hk : cover? paths = .ok kept)
    (hp : ∀ path, path ∈ otherPaths ↔ path ∈ paths) (hs : ∀ grant, grant ∈ others ↔ grant ∈ grants) :
    cover? kept = .ok kept ∧ cover? otherPaths = .ok kept ∧
      compacted (compacted grants) = compacted grants ∧
      ((compacted others).map Grant.key).Perm ((compacted grants).map Grant.key) :=
  ⟨Path.cover?_again hk, Path.cover?_congr hk hp, compacted_of_normal (normal_compacted grants),
    perm_keys_compacted hs⟩

-- Which of two grants with one key is kept depends on the order of the list, but not the keys.
theorem settled_in_reverse :
    let grants : List Grant := [⟨1, 1, "service", "Svc", "a//b", 1, "view"⟩,
      ⟨2, 1, "service", "Svc", "A//*", 1, "view"⟩, ⟨3, 1, "Service", "Svc", "a//*", 1, "View"⟩,
      ⟨4, 1, "ssh", "Svc", "a//b", 1, "view"⟩]
    let paths := ["b//*//d", "a//*//c", "a//b//e", "a//*//c"]
    let kept := ["a//*//c", "b//*//d"]
    cover? paths = .ok kept ∧ cover? kept = .ok kept ∧ cover? paths.reverse = .ok kept ∧
      (compacted grants).map Grant.id = [2, 4] ∧ (compacted grants.reverse).map Grant.id = [4, 3] ∧
      compacted (compacted grants) = compacted grants ∧
      ((compacted grants.reverse).map Grant.key).Perm ((compacted grants).map Grant.key) := by
  intro grants paths kept
  have hk : cover? paths = .ok kept := by decide +kernel
  have hr : ∀ path, path ∈ paths.reverse ↔ path ∈ paths := fun _ => List.mem_reverse
  have hs : ∀ grant, grant ∈ grants.reverse ↔ grant ∈ grants := fun _ => List.mem_reverse
  have ⟨ha, hr, hc, hp⟩ := reduction_settles hk hr hs
  exact ⟨hk, ha, hr, by decide +kernel, by decide +kernel, hc, hp⟩

end Entitlement
