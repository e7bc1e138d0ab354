import Entitlement.Store.Script
/-!
What holds of the result of a script, given what may be sent and what can be expected of the
replies. A store that lives up to these expectations carries it over to the runs of the script.
-/

namespace Entitlement

-- What a script is held to: the commands that it may send, and the replies that it can count on.
structure Contract where
  sends : Command → Prop
  replies : (command : Command) → Except StoreError command.Reply → Prop

namespace Script

variable {α β : Type} {contract : Contract} {post post' : α → Prop}

-- Every command that is sent keeps the contract, and so does the result, as long as the replies do.
def Meets (contract : Contract) (post : α → Prop) : Script α → Prop
  | done value => post value
  | send command next =>
    contract.sends command ∧
      ∀ reply, contract.replies command reply → (next reply).Meets contract post

@[simp]
theorem meets_pure : (pure value : Script α).Meets contract post ↔ post value :=
  .rfl

@[simp]
theorem meets_ask {post : Except StoreError command.Reply → Prop} :
    (ask command).Meets contract post ↔
      contract.sends command ∧ ∀ reply, contract.replies command reply → post reply :=
  .rfl

@[simp]
theorem meets_bind {script : Script α} {f : α → Script β} {post : β → Prop} :
    (script >>= f).Meets contract post ↔
      script.Meets contract fun value => (f value).Meets contract post := by
  induction script
  case done => exact .rfl
  case send command next hi => exact and_congr_right' (forall₂_congr fun reply _ => hi reply)

theorem Meets.mono {script : Script α} (h : script.Meets contract post)
    (hp : ∀ value, post value → post' value) : script.Meets contract post' := by
  induction script
  case done value => exact hp value h
  case send command next hi => exact ⟨h.1, fun reply hr => hi reply (h.2 reply hr)⟩

theorem run_bind (script : Script α) (f : α → Script β) (refuse : Refusal) (now : Instant)
    (sent : List Command) (store : Store) :
    (script >>= f).run refuse now sent store =
      let outcome := script.run refuse now sent store
      (f outcome.value).run refuse now outcome.sent outcome.store := by
  induction script generalizing sent store
  case done => rfl
  case send command next hi =>
    change (send command fun reply => next reply >>= f).run refuse now sent store = _
    rw [run, run]
    cases refuse sent command
    case none => exact hi _ _ _
    case some error => exact hi _ _ _

end Script

-- A store that serves the commands of a contract as the contract says, and stays such a store.
structure Contract.UpheldBy (contract : Contract) (inv : Store → Prop) : Prop where
  refused : ∀ command error, contract.replies command (.error error)
  served : ∀ {store : Store} {now : Instant} {command : Command}, inv store →
    contract.sends command →
      contract.replies command (store.reply now command).1 ∧ inv (store.reply now command).2

-- Any command may be sent, and any reply may come.
def Contract.free : Contract where
  sends _ := True
  replies _ _ := True

theorem Contract.free_upheld : free.UpheldBy fun _ => True where
  refused _ _ := trivial
  served _ _ := ⟨trivial, trivial⟩

-- A store that does so at one time.
structure Contract.UpheldAt (contract : Contract) (now : Instant) (inv : Store → Prop) : Prop where
  refused : ∀ command error, contract.replies command (.error error)
  served : ∀ {store : Store} {command : Command}, inv store → contract.sends command →
    contract.replies command (store.reply now command).1 ∧ inv (store.reply now command).2

theorem Contract.UpheldBy.upheldAt {contract : Contract} (h : contract.UpheldBy inv) (now : Instant) :
    contract.UpheldAt now inv :=
  ⟨h.refused, h.served⟩

theorem Script.Meets.run_at {script : Script α} (h : script.Meets contract post)
    (hc : contract.UpheldAt now inv) (hs : inv store) (refuse : Refusal) (sent : List Command) :
    post (script.run refuse now sent store).value ∧
      inv (script.run refuse now sent store).store := by
  induction script generalizing sent store
  case done => exact ⟨h, hs⟩
  case send command next hi =>
    rw [Script.run]
    cases refuse sent command
    case none =>
      have hv : contract.replies command (store.reply now command).1 ∧
          inv (store.reply now command).2 := hc.served hs h.1
      exact hi _ (h.2 _ hv.1) hv.2 _
    case some error => exact hi _ (h.2 _ (hc.refused command error)) hs _

theorem Script.Meets.run {script : Script α} (h : script.Meets contract post)
    (hc : contract.UpheldBy inv) (hs : inv store) (refuse : Refusal) (now : Instant)
    (sent : List Command) :
    post (script.run refuse now sent store).value ∧
      inv (script.run refuse now sent store).store :=
  h.run_at (hc.upheldAt now) hs refuse sent

-- A script comes to the same result in stores that it cannot tell apart.
theorem Script.Meets.run_congr {script : Script α} {alike : Store → Store → Prop} {now : Instant}
    (h : script.Meets contract fun _ => True) (hc : ∀ command reply, contract.replies command reply)
    (ha : ∀ {store other : Store} {command : Command}, alike store other →
      contract.sends command → (store.reply now command).1 = (other.reply now command).1 ∧
        alike (store.reply now command).2 (other.reply now command).2)
    (hs : alike store other) (refuse : Refusal) (sent : List Command) :
    (script.run refuse now sent store).value = (script.run refuse now sent other).value := by
  induction script generalizing sent store other
  case done => rfl
  case send command next hi =>
    rw [Script.run, Script.run]
    cases refuse sent command
    case none =>
      have ⟨he, hn⟩ := ha hs h.1
      dsimp only
      rw [he]
      exact hi _ (h.2 _ (hc command _)) hn _
    case some error => exact hi _ (h.2 _ (hc command _)) hs _

-- It is enough that the store is such a store once the first command was served.
theorem Script.Meets.run_served {next : Except StoreError command.Reply → Script α}
    (h : (Script.send command next).Meets contract post) (hc : contract.UpheldBy inv)
    (hr : refuse sent command = none)
    (hs : contract.replies command (store.reply now command).1 ∧
      inv (store.reply now command).2) :
    post ((Script.send command next).run refuse now sent store).value ∧
      inv ((Script.send command next).run refuse now sent store).store := by
  rw [Script.run, hr]
  exact (h.2 _ hs.1).run hc hs.2 refuse now _

end Entitlement
