import Entitlement.Proofs.Grant.Blob
import Entitlement.Proofs.Grant.Compaction
import Entitlement.Proofs.Session.Upkeep
/-!
What records and sessions permit whose lists were compacted: just what is upheld of the grants that
they were made from.
-/

namespace Entitlement

-- The text of a list of grants permits just the requests with a property.
def Blob.PermitsJust (blob : String) (p : Request → Prop) : Prop :=
  ∃ grants, decode blob = .ok grants ∧ ∀ request, permitted grants request ↔ p request

theorem Blob.permitsJust_compacted (grants : List Grant) :
    PermitsJust (encode (compacted grants)) (Upheld grants) :=
  ⟨compacted grants, decode_encode _, fun _ => permitted_compacted_iff⟩

namespace Session

variable {session : Session} {value : Held}

theorem isActive_of_cached (hs : session.state = .held value) (ha : value.active? = some active)
    (action objectType path definition : String) :
    perform (isActive action objectType path definition) session =
      pure (.ok (permitted active (.of action objectType path definition)), session) := by
  rw [isActive, perform_bind, perform_activeGrants hs ha]
  rfl

-- An accepted list is active then, and its text is that of the compacted list.
theorem outcome_restrict (grants : List Grant) (store : Bool) (session : Session)
    (refuse : Script.Refusal) (now : Instant) (sent : List Command) (cache : Store)
    (h : (outcome (restrict grants store) session refuse now sent cache).value = (.ok done, after)) :
    after.Holding fun held => held.active? = some (compacted grants) ∧
      held.record.user.perms = Blob.encode (compacted grants) := by
  have hs : session.Sane session.token fun _ => True := ⟨rfl, fun _ _ => trivial⟩
  have hk : Keeps .free session.token (fun _ => True) (fun _ => True) (restrict grants store) _ :=
    (Upkeep.free session.token).restrict grants store
  have ho := (hk.outcome Contract.free_upheld hs trivial refuse now sent cache trivial).2.2
  rw [h] at ho
  exact ho done rfl

-- After `restrict` accepted a list, both the text of the active list and the answers about it are
-- those of what is upheld of the list.
theorem compaction_permits_upheld (grants : List Grant) :
    (∀ request, permitted (compacted grants) request ↔ Upheld grants request) ∧
    ((∀ request, permitted (compacted grants) request = permitted grants request) ↔
      ∀ grant ∈ grants, Upheld grants grant.asRequest) ∧
    (∀ user, Blob.PermitsJust (Record.create user grants).user.perms (Upheld grants) ∧
      Blob.PermitsJust (Record.create user grants).full (Upheld grants)) ∧
    ∀ store session refuse now sent cache,
      match (outcome (restrict grants store) session refuse now sent cache).value with
      | (.ok _, after) =>
        (after.Holding fun held => Blob.PermitsJust held.record.user.perms (Upheld grants)) ∧
        ∀ action objectType path definition refuse now sent cache, ∃ granted,
          (outcome (isActive action objectType path definition) after refuse now sent cache).value.1 =
            .ok granted ∧ (granted ↔ Upheld grants (.of action objectType path definition))
      | (.error _, _) => True := by
  have hb := Blob.permitsJust_compacted grants
  refine ⟨fun _ => permitted_compacted_iff, permitted_compacted_eq_iff, fun _ => ⟨hb, hb⟩, ?_⟩
  intro store session refuse now sent cache
  split
  case h_2 => trivial
  case h_1 done after h =>
    have ⟨held, hs, ha, hp⟩ := outcome_restrict grants store session refuse now sent cache h
    have hd : Blob.PermitsJust held.record.user.perms (Upheld grants) := by rwa [hp]
    refine ⟨⟨held, hs, hd⟩, ?_⟩
    intro action objectType path definition refuse now sent cache
    refine ⟨permitted (compacted grants) (.of action objectType path definition), ?_,
      permitted_compacted_iff⟩
    rw [outcome, isActive_of_cached hs ha]
    rfl

end Session
end Entitlement
