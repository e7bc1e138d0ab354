import Entitlement.Proofs.Session.Course
import Entitlement.Proofs.Store.Exchange
/-!
Operations with their answers, and how they are put together: of a few steps, each of which changes
the state, sends a command or ends the operation. What every step keeps holds of all operations.
What is heard of two steps is heard of the first one, and of the second one if that succeeds.
-/

namespace Entitlement

namespace Operation

-- What an operation answers with when it succeeds.
abbrev Answer : Operation → Type
  | record | intoRecord => Record
  | user => String
  | activeGrants | fullGrants => List Grant
  | can .. | isActive .. => Bool
  | remaining => Store.Lifetime
  | _ => Unit

-- An operation together with its answer.
def ask : (operation : Operation) → Action operation.Answer
  | load => Session.load
  | record => Session.record
  | user => Session.user
  | activeGrants => Session.activeGrants
  | fullGrants => Session.fullGrants
  | activate grants => Session.activate grants
  | restrict grants store => Session.restrict grants store
  | restore => Session.restore
  | can action objectType path definition => Session.can action objectType path definition
  | isActive action objectType path definition =>
    Session.isActive action objectType path definition
  | remaining => Session.remaining
  | setLifetime seconds => Session.setLifetime seconds
  | refresh never => Session.refresh never
  | save never => Session.save never
  | remove => Session.remove
  | intoRecord => Session.intoRecord

-- An operation that was asked for, and how it was answered.
structure Result where
  operation : Operation
  answer : Except AccessError operation.Answer

theorem action_eq (operation : Operation) :
    operation.action = operation.ask >>= fun _ => pure () := by
  cases operation
  case record | user | activeGrants | fullGrants | can | isActive | remaining | intoRecord => rfl
  all_goals exact (bind_pure_unit).symm

end Operation

-- One operation after another on the same session, each of them done in a certain way.
def Session.converse (ask : (operation : Operation) → Action operation.Answer) :
    List Operation → Session → Script (List Operation.Result × Session)
  | [], session => return ([], session)
  | operation :: operations, session => do
    let (answer, session) ← perform (ask operation) session
    let (results, session) ← converse ask operations session
    return (⟨operation, answer⟩ :: results, session)

-- How actions are put together. What they put in front of a list they take out right before, and
-- only a command that fails makes them say so.
inductive Composed : {α : Type} → Action α → Prop
  | pure {α : Type} {value : α} : Composed (pure value)
  | throw {α : Type} {error : AccessError} (h : ∀ operation cause, error ≠ .store operation cause) :
    Composed (throw error : Action α)
  | get : Composed get
  | setState {state : Session.State} : Composed (Session.setState state)
  | send {command : Command} (h : ∀ key value, command ≠ .lpush key value) :
    Composed (Session.send command)
  | exchange {α : Type} {key value : String} {f : Nat → Action α} (hf : ∀ n, Composed (f n)) :
    Composed (Session.send (.lrem key 0 value) >>= fun _ => Session.send (.lpush key value) >>= f)
  | bind {α β : Type} {action : Action α} {f : α → Action β} (ha : Composed action)
    (hf : ∀ value, Composed (f value)) : Composed (action >>= f)

namespace Session

-- Either the first part fails, and this is all that happens, or the rest goes on where it ends.
theorem hears_bind_cases {α β : Type} {action : Action α} {f : α → Action β}
    {exchanges : List Exchange} {result : Except AccessError β × Session}
    (h : (perform (action >>= f) session).Hears exchanges result) :
    (∃ error next, result = (.error error, next) ∧
      (perform action session).Hears exchanges (.error error, next)) ∨
    ∃ value next first more, exchanges = first ++ more ∧
      (perform action session).Hears first (.ok value, next) ∧
        (perform (f value) next).Hears more result := by
  rw [perform_bind, Script.hears_bind] at h
  obtain ⟨⟨answer, next⟩, first, more, rfl, ha, hn⟩ := h
  cases answer
  case error error =>
    obtain ⟨rfl, rfl⟩ := Script.hears_pure.mp hn
    rw [List.append_nil]
    exact .inl ⟨error, next, rfl, ha⟩
  case ok value => exact .inr ⟨value, next, first, more, rfl, ha, hn⟩

theorem hears_launch_cases {action : Action Unit} {launched answer : Except AccessError Session}
    {exchanges : List Exchange} (h : (launch action launched).Hears exchanges answer) :
    (∃ error, launched = .error error ∧ exchanges = [] ∧ answer = .error error) ∨
    ∃ session result, launched = .ok session ∧ (perform action session).Hears exchanges result ∧
      answer = result.1.map fun _ => result.2 := by
  cases launched
  case error error =>
    obtain ⟨he, ha⟩ := Script.hears_pure.mp h
    exact .inl ⟨error, rfl, he, ha⟩
  case ok session =>
    obtain ⟨result, first, more, rfl, hp, hn⟩ := Script.hears_bind.mp h
    obtain ⟨rfl, rfl⟩ := Script.hears_pure.mp hn
    rw [List.append_nil]
    exact .inr ⟨session, result, rfl, hp, rfl⟩

theorem composed_expireBoth : Composed (expireBoth name seconds) :=
  .bind .get fun _ => .bind (.send nofun) fun _ => .bind (.send nofun) fun _ => .pure

theorem composed_persistBoth : Composed (persistBoth name) :=
  .bind .get fun _ => .bind (.send nofun) fun _ => .bind (.send nofun) fun _ => .pure

theorem composed_refreshFor : Composed (refreshFor name never) := by
  refine .bind .get fun session => ?_
  cases never
  case false => exact composed_expireBoth
  case true => exact composed_persistBoth

theorem composed_ensureNotRemoved : Composed ensureNotRemoved := by
  refine .bind .get fun session => ?_
  split
  · exact .throw nofun
  · exact .pure

theorem composed_fetch : Composed (fetch name) := by
  refine .bind (.send nofun) fun reply => ?_
  split
  · exact .throw nofun
  · split
    · exact .throw nofun
    · exact .pure

theorem composed_load : Composed load := by
  refine .bind composed_ensureNotRemoved fun _ => .bind .get fun session => ?_
  refine .bind composed_fetch fun record => .bind .setState fun _ => ?_
  split
  · exact composed_refreshFor
  · exact .pure

theorem composed_held : Composed held := by
  have kept : Composed present := by
    refine .bind .get fun session => ?_
    split
    · exact .pure
    · exact .throw nofun
    · exact .throw nofun
  refine .bind .get fun session => ?_
  dsimp only
  split
  · exact .bind composed_load fun _ => kept
  · exact kept

theorem composed_user : Composed user :=
  .bind composed_held fun _ => .pure

theorem composed_decoded : Composed (decoded blob) := by
  rw [decoded]
  split
  · exact .pure
  · exact .throw (by simp)

theorem composed_activeGrants : Composed activeGrants := by
  refine .bind composed_held fun held => ?_
  split
  · exact .pure
  · exact .bind composed_decoded fun _ => .bind .setState fun _ => .pure

theorem composed_fullGrants : Composed fullGrants := by
  refine .bind composed_held fun held => ?_
  split
  · exact .pure
  · exact .bind composed_decoded fun _ => .bind .setState fun _ => .pure

theorem composed_activate : Composed (activate grants) :=
  .bind composed_held fun _ => .setState

theorem composed_write : Composed (write never) := by
  refine .bind composed_held fun held => .bind .get fun session => .bind (.send nofun) fun _ =>
    .exchange fun _ => ?_
  dsimp only
  split
  · exact .bind composed_persistBoth fun _ => .setState
  · exact .bind (.send nofun) fun _ => .setState

theorem composed_restrict : Composed (restrict grants store) := by
  refine .bind composed_fullGrants fun full => ?_
  split
  · exact .throw nofun
  · refine .bind composed_activate fun _ => ?_
    split
    · exact composed_write
    · exact .pure

theorem composed_restore : Composed restore :=
  .bind composed_fullGrants fun _ => .bind composed_held fun _ => .setState

theorem composed_remaining : Composed remaining :=
  .bind composed_ensureNotRemoved fun _ => .bind .get fun _ => .send nofun

theorem composed_refresh : Composed (refresh never) :=
  .bind composed_user fun _ => composed_refreshFor

theorem composed_save : Composed (save never) := by
  refine .bind composed_held fun held => ?_
  split
  · exact composed_write
  · exact composed_refresh

theorem composed_remove : Composed remove :=
  .bind composed_user fun _ => .bind .get fun _ => .bind (.send nofun) fun _ =>
    .bind (.send nofun) fun _ => .setState

theorem composed_intoRecord : Composed intoRecord := by
  refine .bind composed_held fun _ => .bind .get fun session => ?_
  split
  · exact .pure
  · exact .throw nofun

theorem composed_entry : Composed Directory.lookup.entry := by
  have shown (remaining : Store.Lifetime) :
      Composed (do return Directory.Entry.mk (← intoRecord) remaining) :=
    .bind composed_intoRecord fun _ => .pure
  refine .bind composed_load fun _ => .bind .get fun session => ?_
  dsimp only
  split
  · exact .bind .pure fun _ => shown _
  · exact .bind composed_remaining fun _ => shown _

end Session

namespace Operation

theorem composed (operation : Operation) : Composed operation.ask := by
  cases operation
  case load => exact Session.composed_load
  case record => exact .bind Session.composed_held fun _ => .pure
  case user => exact Session.composed_user
  case activeGrants => exact Session.composed_activeGrants
  case fullGrants => exact Session.composed_fullGrants
  case activate => exact Session.composed_activate
  case restrict => exact Session.composed_restrict
  case restore => exact Session.composed_restore
  case can => exact .bind Session.composed_fullGrants fun _ => .pure
  case isActive => exact .bind Session.composed_activeGrants fun _ => .pure
  case remaining => exact Session.composed_remaining
  case setLifetime => exact .bind Session.composed_user fun _ => Session.composed_expireBoth
  case refresh => exact Session.composed_refresh
  case save => exact Session.composed_save
  case remove => exact Session.composed_remove
  case intoRecord => exact Session.composed_intoRecord

theorem composed_action (operation : Operation) : Composed operation.action := by
  rw [action_eq]
  exact .bind operation.composed fun _ => .pure

end Operation
end Entitlement
