import Entitlement.Grant
import Entitlement.Proofs.Path.Pattern
/-!
A grant lies within a list of grants if the list permits what the grant asks for. By a sample request
that no other grant can tell apart from that one, this is so exactly if everything is permitted that
the grant permits.
-/

namespace Entitlement

open Entitlement.Path (wildcard covers)
open Text (lowercase)

variable {grant other : Grant} {request : Request}

namespace Grant

def pattern (grant : Grant) : List String :=
  Path.segments (lowercase grant.path)

-- What it takes to permit a request.
structure Permits (grant : Grant) (request : Request) : Prop where
  objectType : lowercase grant.objectType = request.objectType
  definition : lowercase grant.definition = request.definition
  action : lowercase grant.action = wildcard ∨ lowercase grant.action = request.action
  path : covers grant.pattern request.segments

theorem permits_iff {grant : Grant} : grant.permits request ↔ grant.Permits request := by
  constructor
  case mp =>
    intro h
    simp only [permits, Bool.and_eq_true, Bool.or_eq_true, decide_eq_true_eq] at h
    have ⟨⟨⟨ht, hd⟩, ha⟩, hp⟩ := h
    exact ⟨ht, hd, ha, hp⟩
  case mpr =>
    intro ⟨ht, hd, ha, hp⟩
    simp only [permits, Bool.and_eq_true, Bool.or_eq_true, decide_eq_true_eq]
    exact ⟨⟨⟨ht, hd⟩, ha⟩, hp⟩

theorem Permits.trans (h : grant.Permits other.asRequest) (h' : other.Permits request) :
    grant.Permits request where
  objectType := h.objectType.trans h'.objectType
  definition := h.definition.trans h'.definition
  action := by
    cases h.action
    case inl ha => exact .inl ha
    case inr ha =>
      have ha : lowercase grant.action = lowercase other.action := ha
      exact ha ▸ h'.action
  path := Path.covers_trans h.path h'.path

-- A request for one thing that a grant permits, with a text of its own in the place of every star.
def sample (filler : String) (grant : Grant) : Request where
  action := if lowercase grant.action = wildcard then filler else lowercase grant.action
  objectType := lowercase grant.objectType
  path := Path.join (Path.fill filler grant.pattern)
  definition := lowercase grant.definition

theorem segments_sample (hf : '/' ∉ filler.toList) :
    (grant.sample filler).segments = Path.fill filler grant.pattern := by
  have hp : (grant.sample filler).path = Path.join (Path.fill filler grant.pattern) := by
    rw [sample]
  rw [Request.segments, hp, pattern]
  exact Path.segments_join_fill hf (lowercase grant.path)

theorem permits_sample (hf : '/' ∉ filler.toList) (grant : Grant) :
    grant.Permits (grant.sample filler) where
  objectType := rfl
  definition := rfl
  action := by
    by_cases h : lowercase grant.action = wildcard
    case pos => exact .inl h
    case neg => exact .inr (if_neg h).symm
  path := by
    rw [segments_sample hf]
    exact Path.covers_fill filler _

-- A grant without the filler that permits the sample permits everything the sampled grant does.
theorem Permits.of_sample (hf : '/' ∉ filler.toList) (ha : filler ≠ lowercase grant.action)
    (hp : filler ∉ grant.pattern) (h : grant.Permits (other.sample filler)) :
    grant.Permits other.asRequest where
  objectType := h.objectType
  definition := h.definition
  action := by
    cases h.action
    case inl hw => exact .inl hw
    case inr he =>
      by_cases hw : lowercase other.action = wildcard
      case pos => exact absurd (he.trans (if_pos hw)).symm ha
      case neg => exact .inr (he.trans (if_neg hw))
  path := by
    have hc := h.path
    rw [segments_sample hf] at hc
    exact Path.covers_of_covers_fill hp hc

end Grant

theorem permitted_iff : permitted grants request ↔ ∃ grant ∈ grants, grant.Permits request := by
  simp [permitted, Grant.permits_iff]

theorem permitted_of_permits (h : permitted full grant.asRequest) (hr : grant.Permits request) :
    permitted full request := by
  have ⟨other, hm, ho⟩ := permitted_iff.mp h
  exact permitted_iff.mpr ⟨other, hm, ho.trans hr⟩

theorem permitted_asRequest_of_contained
    (h : ∀ request, grant.Permits request → permitted full request) :
    permitted full grant.asRequest := by
  have ⟨filler, hf, hn⟩ := Path.exists_filler
    (full.flatMap fun other => lowercase other.action :: other.pattern)
  have ⟨other, hm, hp⟩ := permitted_iff.mp (h _ (Grant.permits_sample hf grant))
  have hn : filler ∉ lowercase other.action :: other.pattern :=
    fun ho => hn (List.mem_flatMap.mpr ⟨other, hm, ho⟩)
  rw [List.mem_cons, not_or] at hn
  exact permitted_iff.mpr ⟨other, hm, hp.of_sample hf hn.1 hn.2⟩

end Entitlement
