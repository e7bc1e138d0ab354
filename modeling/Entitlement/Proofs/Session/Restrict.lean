import Entitlement.Proofs.Grant.Containment
import Entitlement.Proofs.Session.Failure
/-!
The check of a list of grants against the full list: it forbids just those grants that would permit
some request which the full list does not.
-/

namespace Entitlement

variable {full grants : List Grant} {grant : Grant}

-- Some request is permitted by the grant but not by the full list.
def Exceeds (full : List Grant) (grant : Grant) : Prop :=
  ∃ request, grant.permits request ∧ ¬permitted full request

theorem permitted_asRequest_iff : permitted full grant.asRequest ↔
    ∀ request, grant.permits request → permitted full request := by
  constructor
  case mp => exact fun h request hr => permitted_of_permits h (Grant.permits_iff.mp hr)
  case mpr =>
    exact fun h => permitted_asRequest_of_contained fun request hr =>
      h request (Grant.permits_iff.mpr hr)

theorem exceeds_iff : Exceeds full grant ↔ ¬permitted full grant.asRequest := by
  rw [permitted_asRequest_iff, Exceeds]
  push Not
  rfl

namespace Session

-- The judgement of the full list on the grants that are to become active: the first one that
-- exceeds it is forbidden, and if there is none, nothing is.
inductive Judged (full : List Grant) : List Grant → Except AccessError Unit → Prop
  | rejected {before grant after} (within : ∀ other ∈ before, ¬Exceeds full other)
    (exceeds : Exceeds full grant) :
    Judged full (before ++ grant :: after) (.error (forbidden grant))
  | admitted {grants answer} (within : ∀ grant ∈ grants, ¬Exceeds full grant)
    (lenient : ∀ error, answer = .error error → Lenient error) : Judged full grants answer

-- What is left to do once the full list is known.
def judge (grants : List Grant) (store : Bool) (full : List Grant) : Action Unit :=
  match grants.find? fun grant => !permitted full grant.asRequest with
  | some grant => throw (forbidden grant)
  | none => do
    activate grants
    if store then write false

theorem restrict_eq (grants : List Grant) (store : Bool) :
    restrict grants store = fullGrants >>= judge grants store :=
  rfl

theorem judge_of_exceeds (hw : ∀ other ∈ before, ¬Exceeds full other) (he : Exceeds full grant) :
    judge (before ++ grant :: after) store full = throw (forbidden grant) := by
  have hf : (before ++ grant :: after).find? (fun grant => !permitted full grant.asRequest) =
      some grant := by
    refine List.find?_eq_some_iff_append.mpr ⟨?_, before, after, rfl, fun other ho => ?_⟩
    · simpa using exceeds_iff.mp he
    · simpa using not_not.mp (exceeds_iff.not.mp (hw other ho))
  rw [judge, hf]

theorem judge_of_within (hw : ∀ grant ∈ grants, ¬Exceeds full grant) :
    judge grants store full = (do
      activate grants
      if store then write false) := by
  have hf : grants.find? (fun grant => !permitted full grant.asRequest) = none := by
    refine List.find?_eq_none.mpr fun grant hg => ?_
    simpa using not_not.mp (exceeds_iff.not.mp (hw grant hg))
  rw [judge, hf]

theorem judged_judge (grants : List Grant) (store : Bool) (full : List Grant) (session : Session)
    (refuse : Script.Refusal) (now : Instant) (sent : List Command) (cache : Store) :
    Judged full grants (outcome (judge grants store full) session refuse now sent cache).value.1 := by
  by_cases h : ∀ grant ∈ grants, ¬Exceeds full grant
  case pos =>
    refine .admitted h fun error => FailsOnly.outcome ?_ session refuse now sent cache
    rw [judge_of_within h]
    refine .bind activate_lenient fun _ => ?_
    cases store
    case false => exact .pure
    case true => exact write_lenient
  case neg =>
    classical
    have hs : (grants.find? fun grant => Exceeds full grant).isSome := by simpa using h
    have ⟨grant, hf⟩ := Option.isSome_iff_exists.mp hs
    have ⟨he, before, after, hg, hw⟩ := List.find?_eq_some_iff_append.mp hf
    have he : Exceeds full grant := by simpa using he
    have hw : ∀ other ∈ before, ¬Exceeds full other := by simpa using hw
    rw [hg, judge_of_exceeds hw he]
    exact .rejected hw he

-- A full list permits what a grant asks for exactly if it permits every single request that the
-- grant does, so that only those grants are rejected that exceed it.
theorem restrict_by_containment (grants : List Grant) (store : Bool) (session : Session)
    (refuse : Script.Refusal) (now : Instant) (sent : List Command) (cache : Store) :
    (∀ (full : List Grant) (grant : Grant), permitted full grant.asRequest ↔
      ∀ request, grant.permits request → permitted full request) ∧
    match (outcome fullGrants session refuse now sent cache).value.1 with
    | .ok full =>
      Judged full grants (outcome (restrict grants store) session refuse now sent cache).value.1
    | .error error =>
      (outcome (restrict grants store) session refuse now sent cache).value.1 = .error error := by
  refine ⟨fun full grant => permitted_asRequest_iff, ?_⟩
  rw [restrict_eq, outcome_bind]
  cases h : (outcome fullGrants session refuse now sent cache).value.1
  case error error => simp only [h]
  case ok full => simpa only [h] using judged_judge grants store full _ refuse now _ _

end Session
end Entitlement
