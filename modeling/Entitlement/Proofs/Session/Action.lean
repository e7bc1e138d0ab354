import Entitlement.Session
import Entitlement.Proofs.Store.Script
/-!
What holds of the answer of an action and of the session that it leaves behind. Each way to put an
action together has a rule of its own, so that an action is reasoned about along its text.
-/

namespace Entitlement

variable {α β : Type} {contract : Contract}

namespace Session

theorem perform_bind (action : Action α) (f : α → Action β) (session : Session) :
    perform (action >>= f) session = perform action session >>= fun result => match result.1 with
      | .ok value => perform (f value) result.2
      | .error error => pure (.error error, result.2) := by
  refine congrArg (perform action session >>= ·) (funext fun ⟨answer, session⟩ => ?_)
  cases answer <;> rfl

-- An action together with the circumstances in which it runs.
def outcome (action : Action α) (session : Session) (refuse : Script.Refusal) (now : Instant)
    (sent : List Command) (cache : Store) : Script.Outcome (Except AccessError α × Session) :=
  (perform action session).run refuse now sent cache

theorem outcome_bind (action : Action α) (f : α → Action β) (session : Session)
    (refuse : Script.Refusal) (now : Instant) (sent : List Command) (cache : Store) :
    outcome (action >>= f) session refuse now sent cache =
      let first := outcome action session refuse now sent cache
      match first.value.1 with
      | .ok value => outcome (f value) first.value.2 refuse now first.sent first.store
      | .error error => ⟨(.error error, first.value.2), first.store, first.sent⟩ := by
  rw [outcome, perform_bind, Script.run_bind]
  change (let first := outcome action session refuse now sent cache
    Script.run refuse now (match first.value.1 with
      | .ok value => perform (f value) first.value.2
      | .error error => pure (.error error, first.value.2)) first.sent first.store) = _
  generalize outcome action session refuse now sent cache = first
  have ⟨⟨answer, session⟩, store, sent⟩ := first
  cases answer <;> rfl

theorem isModified_of_held {session : Session} {value : Held}
    (hs : session.state = .held value) : session.isModified = value.modified := by
  rw [isModified, hs]

-- A record that is in memory already is taken as it is.
theorem perform_held (h : session.state = .held value) :
    perform held session = pure (.ok value, session) := by
  cases session
  cases h
  rfl

-- So is a list that was decoded already.
theorem perform_activeGrants (hs : session.state = .held value) (ha : value.active? = some grants) :
    perform activeGrants session = pure (.ok grants, session) := by
  rw [activeGrants, perform_bind, perform_held hs, pure_bind]
  dsimp only
  rw [ha]
  rfl

theorem perform_activate (hs : session.state = .held value) (grants : List Grant) :
    perform (activate grants) session = pure (.ok (), { session with
      state := .held (withActive value (Blob.encode (compacted grants)) (compacted grants)) }) := by
  rw [activate, perform_bind, perform_held hs, pure_bind]
  rfl

-- The answer that the text of a list leads to.
def granted (blob : String) : Except AccessError (List Grant) :=
  match Blob.decode blob with
  | .ok grants => .ok grants
  | .error fault => .error (.undecodable fault.reason)

theorem perform_decoded (blob : String) (session : Session) :
    perform (decoded blob) session = pure (granted blob, session) := by
  cases h : Blob.decode blob
  all_goals
    simp only [decoded, granted, h]
    rfl

end Session

def Ensures (contract : Contract) (action : Action α)
    (post : Except AccessError α → Session → Prop) (session : Session) : Prop :=
  (Session.perform action session).Meets contract fun result => post result.1 result.2

namespace Ensures

variable {post : Except AccessError α → Session → Prop} {session : Session}

@[simp]
theorem pure_iff : Ensures contract (pure value) post session ↔ post (.ok value) session :=
  .rfl

@[simp]
theorem throw_iff : Ensures contract (throw error) post session ↔ post (.error error) session :=
  .rfl

@[simp]
theorem get_iff {post : Except AccessError Session → Session → Prop} :
    Ensures contract get post session ↔ post (.ok session) session :=
  .rfl

@[simp]
theorem setState_iff {post : Except AccessError Unit → Session → Prop} :
    Ensures contract (Session.setState state) post session ↔
      post (.ok ()) { session with state } :=
  .rfl

@[simp]
theorem bind_iff {action : Action α} {f : α → Action β}
    {post : Except AccessError β → Session → Prop} :
    Ensures contract (action >>= f) post session ↔
      Ensures contract action (fun answer session => match answer with
        | .ok value => Ensures contract (f value) post session
        | .error error => post (.error error) session) session := by
  rw [Ensures, Session.perform_bind, Script.meets_bind]
  refine iff_of_eq (congrArg (Script.Meets contract · _) (funext fun ⟨answer, session⟩ => ?_))
  cases answer <;> rfl

@[simp]
theorem send_iff {post : Except AccessError command.Reply → Session → Prop} :
    Ensures contract (Session.send command) post session ↔ contract.sends command ∧
      ∀ reply, contract.replies command reply → match reply with
        | .ok reply => post (.ok reply) session
        | .error cause => post (.error (.store command.name cause)) session := by
  refine and_congr_right' (forall₂_congr fun reply _ => ?_)
  cases reply <;> rfl

theorem mono {action : Action α} {post' : Except AccessError α → Session → Prop}
    (h : Ensures contract action post session)
    (hp : ∀ answer session, post answer session → post' answer session) :
    Ensures contract action post' session :=
  Script.Meets.mono h fun result => hp result.1 result.2

theorem run {action : Action α} (h : Ensures contract action post session)
    (hc : contract.UpheldBy inv) (refuse : Script.Refusal) (now : Instant) (sent : List Command)
    (cache : Store) (hs : inv cache) :
    let outcome := Session.outcome action session refuse now sent cache
    post outcome.value.1 outcome.value.2 ∧ inv outcome.store :=
  Script.Meets.run h hc hs refuse now sent

end Ensures
end Entitlement
