import Entitlement.Proofs.Store.Trace
import Entitlement.Store.Script
/-!
What is said between a script and a cache: the commands, each with its reply. Any replies may come,
so that what holds of these exchanges holds at every cache, however and whenever it fails. The run of
a script on a store is one of the cases.
-/

namespace Entitlement

structure Exchange where
  command : Command
  reply : Except StoreError command.Reply

namespace Exchange

def isServed (exchange : Exchange) : Bool :=
  exchange.reply.isOk

@[simp]
theorem isServed_ok (command : Command) (reply : command.Reply) : isServed ⟨command, .ok reply⟩ :=
  rfl

@[simp]
theorem isServed_error (command : Command) (cause : StoreError) :
    isServed ⟨command, .error cause⟩ = false :=
  rfl

end Exchange

namespace Script

variable {α β : Type}

-- A script comes to a value when these are the replies to its commands.
inductive Hears : Script α → List Exchange → α → Prop
  | done {value : α} : Hears (.done value) [] value
  | send {command : Command} {next : Except StoreError command.Reply → Script α}
    {exchanges : List Exchange} {value : α} (reply : Except StoreError command.Reply)
    (h : Hears (next reply) exchanges value) :
    Hears (.send command next) (⟨command, reply⟩ :: exchanges) value

variable {script : Script α} {value : α} {exchanges more : List Exchange}

@[simp]
theorem hears_pure {result : α} :
    (pure value : Script α).Hears exchanges result ↔ exchanges = [] ∧ result = value := by
  constructor
  case mp =>
    rintro (_ | _)
    exact ⟨rfl, rfl⟩
  case mpr =>
    rintro ⟨rfl, rfl⟩
    exact .done

theorem Hears.bind {f : α → Script β} {result : β} (h : script.Hears exchanges value)
    (hf : (f value).Hears more result) : (script >>= f).Hears (exchanges ++ more) result := by
  induction h
  case done => exact hf
  case send reply _ hi => exact .send reply (hi hf)

theorem hears_bind {f : α → Script β} {result : β} :
    (script >>= f).Hears exchanges result ↔ ∃ value first more, exchanges = first ++ more ∧
      script.Hears first value ∧ (f value).Hears more result := by
  constructor
  case mp =>
    intro h
    induction script generalizing exchanges
    case done value => exact ⟨value, [], exchanges, rfl, .done, h⟩
    case send command next hi =>
      cases h
      case send reply h =>
        have ⟨value, first, more, he, hs, hf⟩ := hi reply h
        exact ⟨value, ⟨command, reply⟩ :: first, more, by rw [he]; rfl, .send reply hs, hf⟩
  case mpr =>
    rintro ⟨value, first, more, rfl, hs, hf⟩
    exact hs.bind hf

theorem hears_map {f : α → β} {result : β} :
    (f <$> script).Hears exchanges result ↔
      ∃ value, script.Hears exchanges value ∧ result = f value := by
  rw [map_eq_pure_bind, hears_bind]
  simp

-- The exchanges of a run.
def heard (refuse : Refusal) (now : Instant) : Script α → (sent : List Command) → Store →
    List Exchange
  | done _, _, _ => []
  | send command next, sent, store =>
    match refuse sent command with
    | some error =>
      ⟨command, .error error⟩ :: (next (.error error)).heard refuse now (sent ++ [command]) store
    | none =>
      let (reply, store) := store.reply now command
      ⟨command, reply⟩ :: (next reply).heard refuse now (sent ++ [command]) store

variable (script) (refuse : Refusal) (now : Instant) (sent : List Command) (store : Store)

theorem hears_heard :
    script.Hears (script.heard refuse now sent store) (script.run refuse now sent store).value := by
  induction script generalizing sent store
  case done => exact .done
  case send command next hi =>
    rw [heard, run]
    cases refuse sent command
    case none => exact .send _ (hi _ _ _)
    case some error => exact .send _ (hi _ _ _)

theorem sent_run : (script.run refuse now sent store).sent =
    sent ++ (script.heard refuse now sent store).map Exchange.command := by
  induction script generalizing sent store
  case done => exact (List.append_nil sent).symm
  case send command next hi =>
    rw [heard, run]
    cases refuse sent command
    all_goals
      dsimp only
      rw [hi, List.append_assoc]
      rfl

-- All that can be seen of a run is what the commands did that were served.
theorem alike_run : (script.run refuse now sent store).store.Alike now
    (store.serve now (((script.heard refuse now sent store).filter (·.isServed)).map
      Exchange.command)) := by
  induction script generalizing sent store
  case done => exact fun _ => rfl
  case send command next hi =>
    rw [heard, run]
    cases refuse sent command
    case some error => exact hi _ _ store
    case none =>
      dsimp only
      have hn := hi (store.reply now command).1 (sent ++ [command]) (store.reply now command).2
      cases hr : (store.reply now command).1
      case ok reply =>
        rw [hr] at hn
        exact hn
      case error error =>
        rw [hr] at hn
        exact Store.Alike.trans hn (Store.Alike.serve (Store.alike_of_error hr) _)

-- A run in which no command failed is not different from one in which none could be refused.
theorem run_of_served (h : ∀ exchange ∈ script.heard refuse now sent store, exchange.isServed) :
    script.run refuse now sent store = script.run .none now sent store := by
  induction script generalizing sent store
  case done => rfl
  case send command next hi =>
    rw [heard] at h
    rw [run, run]
    cases hr : refuse sent command
    case some error => simp [hr] at h
    case none =>
      simp only [hr] at h
      exact hi _ _ _ (List.forall_mem_cons.mp h).2

-- A command that was refused has heard of it.
theorem mem_heard_of_refused {before : List Command} {command : Command} {error : StoreError}
    (h : before ++ [command] <+: (script.heard refuse now sent store).map Exchange.command)
    (hr : refuse (sent ++ before) command = some error) :
    ⟨command, .error error⟩ ∈ script.heard refuse now sent store := by
  induction script generalizing sent store before
  case done => simp [heard] at h
  case send first next hi =>
    rw [heard] at h ⊢
    cases before
    case nil =>
      rw [List.append_nil] at hr
      obtain rfl : command = first := by
        cases hf : refuse sent first <;> simp [hf] at h <;> exact h
      simp [hr]
    case cons other before =>
      have ha : sent ++ other :: before = sent ++ [other] ++ before := by simp
      rw [ha] at hr
      cases hf : refuse sent first
      all_goals
        simp only [hf, List.map_cons, List.cons_append, List.cons_prefix_cons] at h ⊢
        obtain ⟨rfl, h⟩ := h
        exact .tail _ (hi _ _ _ h hr)

-- Where the same is live a script comes to the same, and leaves the same.
theorem run_alike {store other : Store} (h : store.Alike now other) :
    (script.run refuse now sent store).value = (script.run refuse now sent other).value ∧
      (script.run refuse now sent store).store.Alike now (script.run refuse now sent other).store := by
  induction script generalizing sent store other
  case done => exact ⟨rfl, h⟩
  case send command next hi =>
    rw [run, run]
    cases refuse sent command
    case some error => exact hi _ _ h
    case none =>
      dsimp only
      rw [← h.reply command]
      exact hi _ _ (h.next command)

-- Scripts that send the same commands as long as they get the same replies, and come to related values.
inductive Matches (rel : α → β → Prop) : Script α → Script β → Prop
  | done {value : α} {other : β} (h : rel value other) : Matches rel (.done value) (.done other)
  | send {command : Command} {next : Except StoreError command.Reply → Script α}
    {next' : Except StoreError command.Reply → Script β}
    (h : ∀ reply, Matches rel (next reply) (next' reply)) :
    Matches rel (.send command next) (.send command next')

namespace Matches

variable {γ δ : Type} {rel : α → β → Prop} {rel' : γ → δ → Prop} {script : Script α}
  {script' : Script β}

theorem bind {f : α → Script γ} {g : β → Script δ} (h : Matches rel script script')
    (hf : ∀ value other, rel value other → Matches rel' (f value) (g other)) :
    Matches rel' (script >>= f) (script' >>= g) := by
  induction h
  case done h => exact hf _ _ h
  case send hi => exact .send hi

theorem mono {rel' : α → β → Prop} (h : Matches rel script script')
    (hr : ∀ value other, rel value other → rel' value other) : Matches rel' script script' := by
  induction h
  case done h => exact .done (hr _ _ h)
  case send hi => exact .send hi

-- What one of them can hear the other one can.
theorem hears (h : Matches rel script script') (hs : script.Hears exchanges value) :
    ∃ other, script'.Hears exchanges other ∧ rel value other := by
  induction h generalizing exchanges
  case done h =>
    cases hs
    exact ⟨_, .done, h⟩
  case send hi =>
    cases hs
    case send reply hs =>
      have ⟨other, ho, hr⟩ := hi reply hs
      exact ⟨other, .send reply ho, hr⟩

theorem map_eq {f : α → γ} {g : β → γ} (h : Matches rel script script')
    (he : ∀ value other, rel value other → f value = g other) : f <$> script = g <$> script' := by
  induction h
  case done h => exact congrArg Script.done (he _ _ h)
  case send command _ _ _ hi => exact congrArg (Script.send command) (funext hi)

end Matches
end Script
end Entitlement
