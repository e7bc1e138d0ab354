import Entitlement.Proofs.Fields
import Entitlement.Proofs.Store.Effect
/-!
Calls on a cache one after another, while time goes on. What they come to depends on nothing but what
is live in the cache when they begin.
-/

namespace Entitlement

-- A command, or the question how many keys there are.
inductive Call where
  | command (command : Command)
  | size

abbrev Call.Reply : Call → Type
  | command c => c.Reply
  | size => Nat

structure Answer where
  call : Call
  reply : Except StoreError call.Reply

-- What calls are made on: the reply to a call at a time, and what is left after it.
abbrev Server (σ : Type) :=
  σ → Instant → (call : Call) → Except StoreError call.Reply × σ

namespace Server

variable {σ τ : Type} {serve : Server σ} {serve' : Server τ} {alike : Instant → σ → τ → Prop}
  {state : σ} {state' : τ} {calls : List (Instant × Call)} {now later : Instant}

-- Calls at their times: the answers to them, and what is left in the end.
def trace (serve : Server σ) (state : σ) : List (Instant × Call) → List Answer × σ
  | [] => ([], state)
  | (now, call) :: calls =>
    let (reply, state) := serve state now call
    let (answers, state) := serve.trace state calls
    (⟨call, reply⟩ :: answers, state)

-- No call tells states apart that are alike, and they stay alike under calls and the passing of time.
structure Simulates (serve : Server σ) (serve' : Server τ) (alike : Instant → σ → τ → Prop) :
    Prop where
  pass : ∀ {now later state state'}, alike now state state' → now ≤ later →
    alike later state state'
  reply : ∀ {now state state'}, alike now state state' → ∀ call,
    (serve state now call).1 = (serve' state' now call).1
  next : ∀ {now state state'}, alike now state state' → ∀ call,
    alike now (serve state now call).2 (serve' state' now call).2

namespace Simulates

theorem answers_eq (h : serve.Simulates serve' alike) (hs : alike now state state')
    (ht : (now :: calls.map Prod.fst).Pairwise (· ≤ ·)) :
    (serve.trace state calls).1 = (serve'.trace state' calls).1 := by
  induction calls generalizing now state state'
  case nil => rfl
  case cons timed calls hi =>
    have ⟨hn, ht⟩ := List.pairwise_cons.mp ht
    have hs := h.pass hs (hn _ List.mem_cons_self)
    rw [trace, trace]
    dsimp only
    rw [h.reply hs, hi (h.next hs timed.2) ht]

theorem alike_trace (h : serve.Simulates serve' alike) (hs : alike now state state')
    (ht : (now :: calls.map Prod.fst).Pairwise (· ≤ ·)) (hn : now ≤ later)
    (hl : ∀ timed ∈ calls, timed.1 ≤ later) :
    alike later (serve.trace state calls).2 (serve'.trace state' calls).2 := by
  induction calls generalizing now state state'
  case nil => exact h.pass hs hn
  case cons timed calls hi =>
    have ⟨hn, ht⟩ := List.pairwise_cons.mp ht
    have ⟨hf, hl⟩ := List.forall_mem_cons.mp hl
    exact hi (h.next (h.pass hs (hn _ List.mem_cons_self)) timed.2) ht hf hl

end Simulates
end Server

namespace Store

variable {store other : Store} {now later : Instant}

def call : Server Store
  | store, now, .command command => store.reply now command
  | store, now, .size => (.ok (store.size now), store)

theorem find?_live (store : Store) (now : Instant) (key : String) :
    (store.live now).find? key = store.live? now key :=
  Fields.find?_filter store.ascending _ key

theorem live_ascending (store : Store) (now : Instant) : (store.live now).Ascending :=
  store.ascending.filter _

-- The same slots are live in both.
def Alike (now : Instant) (store other : Store) : Prop :=
  ∀ key, store.live? now key = other.live? now key

namespace Alike

theorem live (h : store.Alike now other) : store.live now = other.live now :=
  (live_ascending store now).ext (live_ascending other now) fun key => by
    rw [find?_live, find?_live, h]

theorem wait (h : store.Alike now other) (hn : now ≤ later) : store.Alike later other :=
  fun key => by rw [live?_later hn, live?_later hn, h]

theorem reply (h : store.Alike now other) (command : Command) :
    (store.reply now command).1 = (other.reply now command).1 := by
  by_cases hk : ∃ start, command = .keys start
  case pos =>
    obtain ⟨start, rfl⟩ := hk
    simp only [Store.reply, keys, h.live]
  case neg => exact reply_congr (h _) fun start he => hk ⟨start, he⟩

theorem next (h : store.Alike now other) (command : Command) :
    (store.reply now command).2.Alike now (other.reply now command).2 := by
  intro key
  by_cases hk : key = command.key
  case pos =>
    rw [hk, (store.becomes_reply now command).own, (other.becomes_reply now command).own, h]
  case neg => rw [live?_reply_of_ne _ _ _ hk, live?_reply_of_ne _ _ _ hk, h]

theorem trans {last : Store} (h : store.Alike now other) (ho : other.Alike now last) :
    store.Alike now last :=
  fun key => (h key).trans (ho key)

theorem serve (h : store.Alike now other) (commands : List Command) :
    (store.serve now commands).Alike now (other.serve now commands) := by
  induction commands generalizing store other
  case nil => exact h
  case cons command commands hi => exact hi (h.next command)

end Alike

theorem find?_swept (store : Store) (now : Instant) (key : String) :
    (store.swept now).find? key = store.live? now key :=
  find?_live store now key

-- What is taken out cannot be seen later either.
theorem alike_swept (store : Store) (hn : now ≤ later) : (store.swept now).Alike later store :=
  fun key => by rw [live?, find?_swept, ← live?_later hn]

theorem keys_all (store : Store) (now : Instant) : store.keys now "" = (store.live now).names := by
  apply List.filter_eq_self.mpr
  simp [String.isPrefixOf]

theorem size_eq (store : Store) (now : Instant) : store.size now = (store.live now).length := by
  rw [size, keys_all, Fields.names, List.length_map]

-- A command that fails has found a value of the wrong kind, and leaves it.
theorem effect_of_error (h : (store.reply now command).1 = .error error) :
    command.effect now (store.live? now command.key) = store.live? now command.key := by
  cases command
  case get | ttl | lrange | keys => rfl
  case setex | expire | persist | delete => cases h
  case lpush key value =>
    change (store.lpush now key value).1 = _ at h
    rw [lpush, find?_settle_self] at h
    dsimp only [Command.key]
    rcases hl : store.live? now key with _ | ⟨_ | items, _⟩
    case some.bytes => rfl
    all_goals
      rw [hl] at h
      cases h
  case lrem key count value =>
    change (store.lrem now key count value).1 = _ at h
    rw [lrem, find?_settle_self] at h
    dsimp only [Command.key]
    rcases hl : store.live? now key with _ | ⟨_ | items, _⟩
    case some.list =>
      rw [hl] at h
      cases h
    all_goals rfl

theorem alike_of_error (h : (store.reply now command).1 = .error error) :
    (store.reply now command).2.Alike now store := by
  intro key
  by_cases hk : key = command.key
  case pos => rw [hk, (store.becomes_reply now command).own, effect_of_error h, filter_live?]
  case neg => exact live?_reply_of_ne _ _ _ hk

theorem call_simulates : call.Simulates call Alike where
  pass := Alike.wait
  reply h call := by
    cases call
    case command command => exact h.reply command
    case size => simp only [Store.call, size, keys, h.live]
  next h call := by
    cases call
    case command command => exact h.next command
    case size => exact h

end Store
end Entitlement
