import Entitlement.Proofs.Session.Action
/-!
How actions fail. The errors of an action come from the commands it sends and from its own throws;
in particular, no action but the check of a list of grants says that something is forbidden.
-/

namespace Entitlement

-- An action that has only certain errors, whatever the cache replies.
def FailsOnly (fails : AccessError → Prop) (action : Action α) : Prop :=
  ∀ session, Ensures .free action (fun answer _ => ∀ error, answer = .error error → fails error)
    session

namespace FailsOnly

variable {α β : Type} {fails : AccessError → Prop}

theorem pure : FailsOnly fails (pure value : Action α) := by
  simp [FailsOnly]

theorem throw (h : fails error) : FailsOnly fails (throw error : Action α) := by
  simp [FailsOnly, h]

theorem get : FailsOnly fails get := by
  simp [FailsOnly]

theorem setState : FailsOnly fails (Session.setState state) := by
  simp [FailsOnly]

theorem bind {action : Action α} {f : α → Action β} (ha : FailsOnly fails action)
    (hf : ∀ value, FailsOnly fails (f value)) : FailsOnly fails (action >>= f) := by
  intro session
  rw [Ensures.bind_iff]
  refine (ha session).mono fun answer session h => ?_
  cases answer
  case error error => simpa using h error rfl
  case ok value => exact hf value session

theorem send (h : ∀ cause, fails (.store command.name cause)) :
    FailsOnly fails (Session.send command) := by
  intro session
  rw [Ensures.send_iff]
  refine ⟨trivial, fun reply _ => ?_⟩
  match reply with
  | .error cause => simpa using h cause
  | .ok _ => simp

theorem outcome {action : Action α} (h : FailsOnly fails action) (session : Session)
    (refuse : Script.Refusal) (now : Instant) (sent : List Command) (cache : Store)
    (he : (Session.outcome action session refuse now sent cache).value.1 = .error error) :
    fails error :=
  ((h session).run Contract.free_upheld refuse now sent cache trivial).1 error he

end FailsOnly

namespace Session

-- An error that forbids nothing.
def Lenient (error : AccessError) : Prop :=
  ∀ grant, error ≠ forbidden grant

theorem send_lenient : FailsOnly Lenient (send command) :=
  .send fun _ _ => nofun

theorem expireBoth_lenient : FailsOnly Lenient (expireBoth name seconds) :=
  .bind .get fun _ => .bind send_lenient fun _ => .bind send_lenient fun _ => .pure

theorem persistBoth_lenient : FailsOnly Lenient (persistBoth name) :=
  .bind .get fun _ => .bind send_lenient fun _ => .bind send_lenient fun _ => .pure

theorem refreshFor_lenient : FailsOnly Lenient (refreshFor name never) := by
  refine .bind .get fun session => ?_
  cases never
  case false => exact expireBoth_lenient
  case true => exact persistBoth_lenient

theorem ensureNotRemoved_lenient : FailsOnly Lenient ensureNotRemoved := by
  refine .bind .get fun session => ?_
  split
  · exact .throw fun _ => nofun
  · exact .pure

theorem fetch_lenient : FailsOnly Lenient (fetch name) := by
  refine .bind send_lenient fun reply => ?_
  split
  · exact .throw fun _ => nofun
  · split
    · exact .throw fun _ => nofun
    · exact .pure

theorem load_lenient : FailsOnly Lenient load := by
  refine .bind ensureNotRemoved_lenient fun _ => .bind .get fun session => ?_
  refine .bind fetch_lenient fun record => .bind .setState fun _ => ?_
  split
  · exact refreshFor_lenient
  · exact .pure

theorem held_lenient : FailsOnly Lenient held := by
  refine .bind .get fun session => ?_
  dsimp only
  split
  · refine .bind load_lenient fun _ => .bind .get fun session => ?_
    split
    · exact .pure
    · exact .throw fun _ => nofun
    · exact .throw fun _ => nofun
  · refine .bind .get fun session => ?_
    split
    · exact .pure
    · exact .throw fun _ => nofun
    · exact .throw fun _ => nofun

theorem activate_lenient : FailsOnly Lenient (activate grants) :=
  .bind held_lenient fun _ => .setState

theorem write_lenient : FailsOnly Lenient (write never) := by
  refine .bind held_lenient fun held => .bind .get fun session => .bind send_lenient fun _ =>
    .bind send_lenient fun _ => .bind send_lenient fun _ => ?_
  dsimp only
  split
  · exact .bind persistBoth_lenient fun _ => .setState
  · exact .bind send_lenient fun _ => .setState

end Session
end Entitlement
