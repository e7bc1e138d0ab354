import Entitlement.Grant.Compaction
import Entitlement.Proofs.Grant.Containment
import Entitlement.Proofs.Path.Cover
import Entitlement.Proofs.Text.Lowercase
/-!
What a compacted list permits: just what the grants of the list do that no other one overrides. A
star branch is followed alone, so that a grant can be lost that no remaining one contains.
-/

namespace Entitlement

variable {grants : List Grant} {grant other : Grant} {request : Request}

-- Both are of one kind, and the path of the first one has a star where it leaves that of the second.
structure Grant.Overrides (other grant : Grant) : Prop where
  kind : other.kind = grant.kind
  outranks : Path.Outranks other.pattern grant.pattern

def Overridden (grants : List Grant) (grant : Grant) : Prop :=
  ∃ other ∈ grants, other.Overrides grant

namespace Compaction

variable {keys : List (Kind × String)} {left : List (Kind × String)}
  {list : List (Grant × Kind × String)}

-- A path is as long as its kind says.
def Measured (key : Kind × String) : Prop :=
  Path.count key.2 = key.1.length

theorem measured_key (grant : Grant) : Measured grant.key :=
  Text.length_segments_lowercase grant.path

theorem mem_survivingPaths (h : ∀ path ∈ paths, Path.count path = length) :
    path ∈ survivingPaths paths ↔
      path ∈ paths ∧ ∀ other ∈ paths, ¬Path.Outranks (Path.segments other) (Path.segments path) := by
  cases paths
  case nil => simp [survivingPaths, Path.cover?, Except.toOption]
  case cons first rest =>
    have he : ∀ path ∈ first :: rest, Path.count path = Path.count first :=
      fun path hp => (h path hp).trans (h first List.mem_cons_self).symm
    obtain ⟨kept, hc, hu⟩ := Path.exists_unrivalled he
    rw [survivingPaths, hc]
    exact hu.mem_iff path

theorem mem_survivors (h : ∀ key ∈ keys, Measured key) : (kind, path) ∈ survivors keys ↔
    (kind, path) ∈ keys ∧ ∀ other, (kind, other) ∈ keys →
      ¬Path.Outranks (Path.segments other) (Path.segments path) := by
  have hp : ∀ other, other ∈ (keys.filter (·.1 = kind)).map Prod.snd ↔ (kind, other) ∈ keys := by
    intro other
    simp
  have hl : ∀ other ∈ (keys.filter (·.1 = kind)).map Prod.snd, Path.count other = kind.length :=
    fun other ho => h _ ((hp other).mp ho)
  have hs : (kind, path) ∈ survivors keys ↔ kind ∈ (keys.map Prod.fst).eraseDups ∧
      path ∈ survivingPaths ((keys.filter (·.1 = kind)).map Prod.snd) := by
    simp [survivors]
  rw [hs, mem_survivingPaths hl, hp, List.mem_eraseDups]
  constructor
  case mp => exact fun ⟨_, hm, hn⟩ => ⟨hm, fun other ho => hn other ((hp other).mpr ho)⟩
  case mpr =>
    exact fun ⟨hm, hn⟩ =>
      ⟨List.mem_map_of_mem hm, hm, fun other ho => hn other ((hp other).mp ho)⟩

theorem mem_of_mem_claim (h : grant ∈ claim left list) : ∃ key ∈ left, (grant, key) ∈ list := by
  fun_induction claim left list
  case case1 => simp at h
  case case2 left first key rest hk hi =>
    cases h
    case head => exact ⟨key, hk, List.mem_cons_self⟩
    case tail h =>
      have ⟨key, hl, hm⟩ := hi h
      exact ⟨key, List.mem_of_mem_erase hl, .tail _ hm⟩
  case case3 left first key rest hk hi =>
    have ⟨key, hl, hm⟩ := hi h
    exact ⟨key, hl, .tail _ hm⟩

theorem exists_mem_claim (hl : key ∈ left) (hm : (grant, key) ∈ list) :
    ∃ other ∈ claim left list, (other, key) ∈ list := by
  fun_induction claim left list
  case case1 => simp at hm
  case case2 left first next rest hk hi =>
    by_cases hn : key = next
    case pos => exact ⟨first, List.mem_cons_self, hn ▸ List.mem_cons_self⟩
    case neg =>
      have hr : (grant, key) ∈ rest := by simpa [hn] using hm
      have ⟨other, ho, hc⟩ := hi ((List.mem_erase_of_ne hn).mpr hl) hr
      exact ⟨other, .tail _ ho, .tail _ hc⟩
  case case3 left first next rest hk hi =>
    have hn : key ≠ next := fun hn => hk (hn ▸ hl)
    have hr : (grant, key) ∈ rest := by simpa [hn] using hm
    have ⟨other, ho, hc⟩ := hi hl hr
    exact ⟨other, ho, .tail _ hc⟩

end Compaction

theorem Grant.Permits.of_key_eq (h : grant.Permits request) (hk : grant.key = other.key) :
    other.Permits request := by
  simp only [Grant.key, Grant.kind, Prod.mk.injEq, Kind.mk.injEq] at hk
  have ⟨⟨ht, hd, ha, _⟩, hp⟩ := hk
  constructor
  case objectType => exact ht ▸ h.objectType
  case definition => exact hd ▸ h.definition
  case action => exact ha ▸ h.action
  case path =>
    have he : grant.pattern = other.pattern := congrArg Path.segments hp
    exact he ▸ h.path

theorem key_mem_survivors_iff (hg : grant ∈ grants) :
    grant.key ∈ Compaction.survivors (grants.map Grant.key) ↔ ¬Overridden grants grant := by
  have hm : ∀ key ∈ grants.map Grant.key, Compaction.Measured key := by
    simpa using fun grant _ => Compaction.measured_key grant
  have hk : ∀ path, (grant.kind, path) ∈ grants.map Grant.key ↔
      ∃ other ∈ grants, other.kind = grant.kind ∧ Text.lowercase other.path = path := by
    simp [Grant.key]
  rw [Grant.key, Compaction.mem_survivors hm, hk]
  constructor
  case mp =>
    intro ⟨_, hn⟩ ⟨other, ho, hv⟩
    exact hn _ ((hk _).mpr ⟨other, ho, hv.kind, rfl⟩) hv.outranks
  case mpr =>
    intro hn
    refine ⟨⟨grant, hg, rfl, rfl⟩, fun path hp hr => ?_⟩
    have ⟨other, ho, hkind, hl⟩ := (hk path).mp hp
    have hr : Path.Outranks other.pattern grant.pattern := by rwa [← hl] at hr
    exact hn ⟨other, ho, hkind, hr⟩

theorem mem_of_mem_compacted (h : grant ∈ compacted grants) : grant ∈ grants := by
  have ⟨key, _, hm⟩ := Compaction.mem_of_mem_claim h
  simp at hm
  exact hm.1

theorem not_overridden_of_mem_compacted (h : grant ∈ compacted grants) :
    ¬Overridden grants grant := by
  have ⟨key, hs, hm⟩ := Compaction.mem_of_mem_claim h
  have hk : grant.key = key := by
    simp at hm
    exact hm.2
  exact (key_mem_survivors_iff (mem_of_mem_compacted h)).mp (hk ▸ hs)

theorem exists_mem_compacted (hg : grant ∈ grants) (hn : ¬Overridden grants grant) :
    ∃ other ∈ compacted grants, other.key = grant.key := by
  have hm : (grant, grant.key) ∈ grants.map fun g => (g, g.key) := List.mem_map_of_mem hg
  have ⟨other, ho, hk⟩ := Compaction.exists_mem_claim ((key_mem_survivors_iff hg).mpr hn) hm
  refine ⟨other, ho, ?_⟩
  simp at hk
  exact hk.2

-- What a list permits through grants that are not overridden.
def Upheld (grants : List Grant) (request : Request) : Prop :=
  ∃ grant ∈ grants, ¬Overridden grants grant ∧ grant.permits request

theorem permitted_compacted_iff : permitted (compacted grants) request ↔ Upheld grants request := by
  rw [permitted_iff]
  constructor
  case mp =>
    intro ⟨grant, hg, hp⟩
    exact ⟨grant, mem_of_mem_compacted hg, not_overridden_of_mem_compacted hg,
      Grant.permits_iff.mpr hp⟩
  case mpr =>
    intro ⟨grant, hg, hn, hp⟩
    have ⟨other, ho, hk⟩ := exists_mem_compacted hg hn
    exact ⟨other, ho, (Grant.permits_iff.mp hp).of_key_eq hk.symm⟩

theorem permitted_of_upheld (h : Upheld grants request) : permitted grants request := by
  have ⟨grant, hg, _, hp⟩ := h
  exact permitted_iff.mpr ⟨grant, hg, Grant.permits_iff.mp hp⟩

-- Nothing is lost exactly if what any grant gives is still given by one that is not overridden.
theorem permitted_compacted_eq_iff :
    (∀ request, permitted (compacted grants) request = permitted grants request) ↔
      ∀ grant ∈ grants, Upheld grants grant.asRequest := by
  constructor
  case mp =>
    intro h grant hg
    refine permitted_compacted_iff.mp (permitted_asRequest_of_contained fun request hr => ?_)
    rw [h]
    exact permitted_iff.mpr ⟨grant, hg, hr⟩
  case mpr =>
    intro h request
    refine Bool.eq_iff_iff.mpr ⟨fun hc => permitted_of_upheld (permitted_compacted_iff.mp hc), ?_⟩
    intro hp
    have ⟨grant, hg, hr⟩ := permitted_iff.mp hp
    exact permitted_of_permits (permitted_compacted_iff.mpr (h grant hg)) hr

-- The second grant gives way to the star of the first one, which does not permit what it did.
theorem compacted_loses_requests : ¬∀ (grants : List Grant) (request : Request),
    permitted (compacted grants) request = permitted grants request := by
  intro h
  have hr := h [⟨1, 1, "service", "Svc", "a//*//c", 1, "view"⟩,
    ⟨2, 1, "service", "Svc", "a//b//e", 1, "view"⟩] (.of "view" "service" "a//b//e" "Svc")
  exact absurd hr (by decide +kernel)

end Entitlement
