import Entitlement.Store.Command
/-!
Scripts: programs that send commands to a cache one after another and go on with the replies. They
are data, so that one can ask which commands a script sends, let some of them fail, or run the
commands of several scripts in turn.
-/

namespace Entitlement

inductive Script (α : Type) where
  | done (value : α)
  | send (command : Command) (next : Except StoreError command.Reply → Script α)

namespace Script

variable {α β γ : Type}

def bind : Script α → (α → Script β) → Script β
  | done value, f => f value
  | send command next, f => send command fun reply => (next reply).bind f

instance : Monad Script where
  pure := done
  bind := bind

theorem bind_done (script : Script α) : script.bind done = script := by
  induction script with
  | done => rfl
  | send command next ih => simp [bind, ih]

theorem bind_assoc (script : Script α) (f : α → Script β) (g : β → Script γ) :
    (script.bind f).bind g = script.bind fun value => (f value).bind g := by
  induction script with
  | done => rfl
  | send command next ih => simp [bind, ih]

instance : LawfulMonad Script :=
  .mk' Script bind_done (fun _ _ => rfl) bind_assoc

def ask (command : Command) : Script (Except StoreError command.Reply) :=
  send command done

-- Decides from the commands sent so far whether the next one is refused.
abbrev Refusal := List Command → Command → Option StoreError

def Refusal.none : Refusal := fun _ _ => Option.none

structure Outcome (α : Type) where
  value : α
  store : Store
  -- all commands, refused ones too, in their order
  sent : List Command

-- A refused command does not reach the cache. Time stands still during a script.
def run (refuse : Refusal) (now : Instant) : Script α → (sent : List Command) → Store → Outcome α
  | done value, sent, store => ⟨value, store, sent⟩
  | send command next, sent, store =>
    match refuse sent command with
    | some error => (next (.error error)).run refuse now (sent ++ [command]) store
    | Option.none =>
      let (reply, store) := store.reply now command
      (next reply).run refuse now (sent ++ [command]) store

end Script

-- A command that fails whenever it is sent, or only for one key.
structure Fault where
  command : String
  key? : Option String
  error : StoreError

namespace Fault

def hits (fault : Fault) (command : Command) : Bool :=
  fault.command = command.name && fault.key?.all (· = command.key)

def refusal (faults : List Fault) : Script.Refusal :=
  fun _ command => (faults.find? (·.hits command)).map (·.error)

end Fault
end Entitlement
