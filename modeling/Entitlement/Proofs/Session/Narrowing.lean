import Entitlement.Proofs.Session.History
import Entitlement.Proofs.Session.Restrict
import Entitlement.Proofs.Session.Writing
/-!
Making a list of grants active that the full list has to allow, in a session that has its record in
memory. Either the whole list becomes active, or nothing changes.
-/

namespace Entitlement

variable {session : Session} {held next : Held} {full grants before after : List Grant}
  {grant : Grant} {store : Bool}

-- A record in memory in which only the active list was replaced.
structure Narrowed (held : Held) (grants : List Grant) (next : Held) : Prop where
  active : next.active? = some (compacted grants)
  decoded : Blob.decode next.record.user.perms = .ok (compacted grants)
  record : next.record =
    { held.record with user := { held.record.user with perms := next.record.user.perms } }
  modified : next.modified = true

namespace Session

-- The same session, once it has decoded its full list.
def knowing (session : Session) (held : Held) (full : List Grant) : Session :=
  { session with state := .held { held with full? := some full } }

def replaced (held : Held) (full grants : List Grant) : Held :=
  withActive { held with full? := some full } (Blob.encode (compacted grants)) (compacted grants)

theorem narrowed_replaced (held : Held) (full grants : List Grant) :
    Narrowed held grants (replaced held full grants) :=
  ⟨rfl, Blob.decode_encode _, rfl, rfl⟩

theorem perform_fullGrants_of_current (hs : session.state = .held held) (hc : held.Current) :
    perform fullGrants session = pure (match Blob.decode held.record.full with
      | .error fault => (.error (.undecodable fault.reason), session)
      | .ok full => (.ok full, session.knowing held full)) := by
  rw [fullGrants, perform_bind, perform_held hs, pure_bind]
  dsimp only
  cases hf : held.full?
  case none =>
    dsimp only
    rw [perform_bind, perform_decoded, pure_bind, granted]
    cases Blob.decode held.record.full <;> rfl
  case some full =>
    have hk : session.knowing held full = session := by
      rw [knowing, ← hf, ← hs]
    rw [hc.full full hf]
    dsimp only
    rw [hk]
    rfl

theorem perform_restrict_of_undecodable (hs : session.state = .held held) (hc : held.Current)
    (hd : Blob.decode held.record.full = .error fault) (grants : List Grant) (store : Bool) :
    perform (restrict grants store) session =
      pure (.error (.undecodable fault.reason), session) := by
  rw [restrict_eq, perform_bind, perform_fullGrants_of_current hs hc, pure_bind, hd]

theorem perform_restrict_of_exceeds (hs : session.state = .held held) (hc : held.Current)
    (hd : Blob.decode held.record.full = .ok full)
    (hw : ∀ other ∈ before, permitted full other.asRequest)
    (he : ¬permitted full grant.asRequest) (store : Bool) :
    perform (restrict (before ++ grant :: after) store) session =
      pure (.error (forbidden grant), session.knowing held full) := by
  have hj : judge (before ++ grant :: after) store full = throw (forbidden grant) :=
    judge_of_exceeds (fun other ho => mt exceeds_iff.mp (not_not.mpr (hw other ho)))
      (exceeds_iff.mpr he)
  rw [restrict_eq, perform_bind, perform_fullGrants_of_current hs hc, pure_bind, hd]
  dsimp only
  rw [hj]
  rfl

-- A list that is allowed becomes active, and then it may be stored.
theorem perform_restrict_of_within (hs : session.state = .held held) (hc : held.Current)
    (hd : Blob.decode held.record.full = .ok full)
    (hw : ∀ grant ∈ grants, permitted full grant.asRequest) (store : Bool) :
    perform (restrict grants store) session =
      perform (if store then write false else pure ())
        { session with state := .held (replaced held full grants) } := by
  have hj : judge grants store full = (do
      activate grants
      if store then write false) :=
    judge_of_within fun grant hg => mt exceeds_iff.mp (not_not.mpr (hw grant hg))
  have hk : (session.knowing held full).state = .held { held with full? := some full } := rfl
  rw [restrict_eq, perform_bind, perform_fullGrants_of_current hs hc, pure_bind, hd]
  dsimp only
  rw [hj, perform_bind, perform_activate hk, pure_bind]
  rfl

-- A list is refused if the full list cannot be decoded, or does not allow one of its grants; then
-- nothing is sent, and nothing changes in memory. Otherwise it becomes active as a whole, and if it
-- is to be stored as well, the record is written as it is then.
theorem restricted_as_whole {acts : List Act} (hr : session.Reached acts)
    (hs : session.state = .held held) (grants : List Grant) :
    (∀ store fault, Blob.decode held.record.full = .error fault →
      perform (restrict grants store) session =
        pure (.error (.undecodable fault.reason), session)) ∧
    ∀ full, Blob.decode held.record.full = .ok full →
      (∀ store before grant after, grants = before ++ grant :: after →
        (∀ other ∈ before, permitted full other.asRequest) → ¬permitted full grant.asRequest →
          perform (restrict grants store) session =
            pure (.error (.forbidden grant.action grant.objectType grant.definition grant.path),
              session.knowing held full)) ∧
      ((∀ grant ∈ grants, permitted full grant.asRequest) → ∃ next, Narrowed held grants next ∧
        let narrowed : Session := { session with state := .held next }
        let stored : Session := { session with state := .held { next with modified := false } }
        perform (restrict grants false) session = pure (.ok (), narrowed) ∧
        (∀ exchanges result, (perform (restrict grants true) session).Hears exchanges result →
          Carried narrowed (session.writing next.record false) stored exchanges result) ∧
        ∀ refuse now sent cache,
          let outcome := outcome (restrict grants true) session refuse now sent cache
          outcome.value.1 = .ok () → ∀ later, now ≤ later →
            outcome.store.get later (Key.record session.token) =
              .ok (if later < Store.deadline now session.lifetime then some next.record.encode
                else none)) := by
  have hc : held.Current := hr.current held hs
  refine ⟨fun store fault hd => perform_restrict_of_undecodable hs hc hd grants store, ?_⟩
  refine fun full hd => ⟨?refused, fun hw => ⟨replaced held full grants, ?_, ?unstored, ?stored⟩⟩
  case refused =>
    rintro store before grant after rfl hw he
    exact perform_restrict_of_exceeds hs hc hd hw he store
  case unstored => exact perform_restrict_of_within hs hc hd hw false
  case stored =>
    have he : perform (restrict grants true) session = perform (write false) _ :=
      perform_restrict_of_within hs hc hd hw true
    constructor
    case left =>
      rw [he]
      exact carries_write rfl false
    case right =>
      intro refuse now sent cache outcome ho later hl
      have hw : outcome = Session.outcome (write false) _ refuse now sent cache :=
        congrArg (·.run refuse now sent cache) he
      rw [hw] at ho ⊢
      exact get_of_written rfl hr.lifetime_ne_zero ho hl
  exact narrowed_replaced held full grants

-- Of two grants the full list allows the first one only.
theorem unchanged_of_forbidden :
    let full : List Grant := compacted [⟨1, 1, "ssh", "Node", "a//*", 1, "view"⟩]
    let allowed : Grant := ⟨2, 1, "ssh", "Node", "a//B", 1, "view"⟩
    let wanted : Grant := ⟨3, 1, "ssh", "Node", "a//B", 1, "manage"⟩
    let record : Record := { Record.create "u" [⟨1, 1, "ssh", "Node", "a//*", 1, "view"⟩] with
      uid := "t" }
    let held : Held := { Held.of record true with modified := false }
    let session : Session := ⟨"t", 3600, true, .held held⟩
    session.Reached [] ∧ session.state = .held held ∧
      perform (restrict [allowed, wanted] true) session =
        pure (.error (.forbidden "manage" "ssh" "Node" "a//B"), session.knowing held full) := by
  intro full allowed wanted record held session
  let config : Config := { connected := true }
  have hr : session.Reached [] := .begun (begun_of_stored config rfl nofun "t" record)
  have hd : Blob.decode held.record.full = .ok full := Blob.decode_encode _
  have ha : permitted full allowed.asRequest := by decide +kernel
  have hw : ¬permitted full wanted.asRequest := by decide +kernel
  exact ⟨hr, rfl, ((restricted_as_whole hr rfl [allowed, wanted]).2 full hd).1 true [allowed] wanted
    [] rfl (by simpa using ha) hw⟩

end Session
end Entitlement
