import Entitlement.Proofs.Store.Listing
import Entitlement.Store.Script
/-!
Lists whose items stand in the order in which they were last put in front. A script keeps them so if
it takes an item out right before it puts it in front, whatever commands are refused on the way and
however much time goes by.
-/

namespace Entitlement

-- What is put in front of a list, and under which key, if the reply says so.
def Command.pushed : (command : Command) → Except StoreError command.Reply → List (String × String)
  | lpush key value, .ok _ => [(key, value)]
  | _, _ => []

-- The item that is not in a list any more after a reply.
def Command.cleared : (command : Command) → Except StoreError command.Reply →
    Option (String × String)
  | lrem key count value, .ok _ => if count = 0 then some (key, value) else none
  | _, _ => none

-- A cache at a time, and what was put in front of its lists so far, latest first.
structure Chronicle where
  now : Instant
  store : Store
  pushes : List (String × String)

namespace Chronicle

def serve (chronicle : Chronicle) (now : Instant) (command : Command) : Chronicle where
  now := now
  store := (chronicle.store.reply now command).2
  pushes := command.pushed (chronicle.store.reply now command).1 ++ chronicle.pushes

def pushesTo (chronicle : Chronicle) (key : String) : List String :=
  (chronicle.pushes.filter (·.1 = key)).map Prod.snd

end Chronicle

namespace Script

variable {α β : Type}

-- A script runs to its end. Any of its commands can be refused, with any error, and time can go by
-- before a command is served.
inductive Runs : Script α → Chronicle → α → Chronicle → Prop
  | done {value chronicle} : Runs (.done value) chronicle value chronicle
  | refused {command next} {chronicle last : Chronicle} {value} (error : StoreError)
    (h : Runs (next (.error error)) chronicle value last) :
    Runs (.send command next) chronicle value last
  | served {command next} {chronicle last : Chronicle} {value} {now : Instant}
    (hn : chronicle.now ≤ now) (h : Runs (next (chronicle.store.reply now command).1)
      (chronicle.serve now command) value last) : Runs (.send command next) chronicle value last

-- That is how a script runs while time stands still.
theorem exists_runs (script : Script α) (refuse : Refusal) (sent : List Command)
    (chronicle : Chronicle) :
    let outcome := script.run refuse chronicle.now sent chronicle.store
    ∃ pushes, script.Runs chronicle outcome.value ⟨chronicle.now, outcome.store, pushes⟩ := by
  induction script generalizing sent chronicle
  case done => exact ⟨chronicle.pushes, .done⟩
  case send command next hi =>
    dsimp only
    rw [run]
    cases refuse sent command
    case none =>
      obtain ⟨pushes, h⟩ := hi (chronicle.store.reply chronicle.now command).1 (sent ++ [command])
        (chronicle.serve chronicle.now command)
      exact ⟨pushes, .served (UInt64.le_refl _) h⟩
    case some error =>
      obtain ⟨pushes, h⟩ := hi (.error error) (sent ++ [command]) chronicle
      exact ⟨pushes, .refused error h⟩

-- An item is only put in front of a list once it was taken out, by the command right before.
def Tidy : Option (String × String) → Script α → Prop
  | _, done _ => True
  | cleared, send command next =>
    (∀ key value, command = .lpush key value → cleared = some (key, value)) ∧
      ∀ reply, (next reply).Tidy (command.cleared reply)

theorem Tidy.mono {script : Script α} (h : script.Tidy none) (cleared : Option (String × String)) :
    script.Tidy cleared := by
  cases script
  case done => trivial
  case send command next => exact ⟨fun key value hc => absurd (h.1 key value hc).symm (by simp), h.2⟩

theorem Tidy.bind {script : Script α} {f : α → Script β} {cleared : Option (String × String)}
    (h : script.Tidy cleared) (hf : ∀ value, (f value).Tidy none) :
    (script >>= f).Tidy cleared := by
  induction script generalizing cleared
  case done value => exact (hf value).mono cleared
  case send command next hi => exact ⟨h.1, fun reply => hi reply (h.2 reply)⟩

end Script

-- The order in which items were last pushed, of all pushes the latest first.
structure Recent (pushes items : List String) : Prop where
  pushed : ∀ item ∈ items, item ∈ pushes
  newest : items.Pairwise fun item other => pushes.idxOf item < pushes.idxOf other

namespace Recent

variable {pushes items kept : List String} {value : String}

theorem nil : Recent pushes [] :=
  ⟨fun _ h => absurd h List.not_mem_nil, List.Pairwise.nil⟩

theorem nodup (h : Recent pushes items) : items.Nodup := by
  refine List.Pairwise.imp (fun {item other} hlt => ?_) h.newest
  rintro rfl
  exact Nat.lt_irrefl _ hlt

theorem sublist (h : Recent pushes items) (hs : kept.Sublist items) : Recent pushes kept :=
  ⟨fun item hi => h.pushed item (hs.subset hi), h.newest.sublist hs⟩

theorem push (h : Recent pushes items) (hv : value ∉ items) :
    Recent (value :: pushes) (value :: items) := by
  have hi : ∀ item ∈ items, (value :: pushes).idxOf item = pushes.idxOf item + 1 := by
    intro item hm
    exact List.idxOf_cons_ne _ fun he => hv (he ▸ hm)
  constructor
  case pushed =>
    refine List.forall_mem_cons.mpr ⟨List.mem_cons_self, fun item hm => ?_⟩
    exact List.mem_cons_of_mem _ (h.pushed item hm)
  case newest =>
    refine List.pairwise_cons.mpr ⟨fun item hm => ?_, h.newest.imp_of_mem fun hm ho hlt => ?_⟩
    · rw [List.idxOf_cons_self, hi item hm]
      exact Nat.succ_pos _
    · rw [hi _ hm, hi _ ho]
      exact Nat.succ_lt_succ hlt

end Recent

namespace Store

variable {store : Store} {now later : Instant} {key : String}

theorem removeFirst_sublist (value : String) (limit : Nat) (items : List String) :
    (removeFirst value limit items).Sublist items := by
  fun_induction removeFirst value limit items
  case case1 | case2 => exact .refl _
  case case3 hi => exact hi.cons _
  case case4 hi => exact hi.cons_cons _

theorem removeLast_sublist (value : String) (limit : Nat) (items : List String) :
    (removeLast value limit items).Sublist items := by
  rw [removeLast]
  induction items
  case nil => exact .refl _
  case cons item items hi =>
    rw [List.foldr_cons]
    generalize items.foldr _ (0, []) = rest at hi ⊢
    obtain ⟨removed, kept⟩ := rest
    dsimp only
    split
    · exact hi.cons _
    · exact hi.cons_cons _

theorem removed_sublist (count : Int64) (value : String) (items : List String) :
    (removed count value items).Sublist items := by
  rw [removed]
  split
  · exact removeFirst_sublist ..
  · split
    · exact removeFirst_sublist ..
    · exact removeLast_sublist ..

theorem items_filter_sublist (p : Slot → Bool) (slot? : Option Slot) :
    ((slot?.filter p).elim [] Slot.items).Sublist (slot?.elim [] Slot.items) := by
  cases slot?
  case none => exact .refl _
  case some slot =>
    rw [Option.filter_some]
    split
    · exact .refl _
    · exact List.nil_sublist _

-- No command but one brings new items.
theorem items_effect_sublist {command : Command} (hc : ∀ key value, command ≠ .lpush key value)
    (slot? : Option Slot) :
    ((command.effect now slot?).elim [] Slot.items).Sublist (slot?.elim [] Slot.items) := by
  cases command
  case lpush key value => exact absurd rfl (hc key value)
  case setex | delete => exact List.nil_sublist _
  case get | ttl | lrange | keys => exact .refl _
  case expire key seconds =>
    rw [Command.effect]
    split
    · exact List.nil_sublist _
    · cases slot? <;> exact .refl _
  case persist key => cases slot? <;> exact .refl _
  case lrem key count value =>
    obtain _ | ⟨_ | items, deadline?⟩ := slot?
    · exact .refl _
    · exact .refl _
    · dsimp only [Command.effect]
      split
      · exact List.nil_sublist _
      · exact removed_sublist count value items

theorem listed_reply_sublist {command : Command} (hc : ∀ key value, command ≠ .lpush key value)
    (store : Store) (now : Instant) (key : String) :
    ((store.reply now command).2.listed now key).Sublist (store.listed now key) := by
  rw [listed, live?_reply, passed]
  split
  · exact (items_filter_sublist ..).trans (items_effect_sublist hc _)
  · exact .refl _

-- Putting an item in front of what is no list fails.
theorem listed_lpush (store : Store) (now : Instant) (key value : String) :
    (∃ n, (store.reply now (.lpush key value)).1 = .ok n ∧
      (store.reply now (.lpush key value)).2.listed now key = value :: store.listed now key) ∨
    (∃ cause, (store.reply now (.lpush key value)).1 = .error cause) ∧
      (store.reply now (.lpush key value)).2.listed now key = [] := by
  by_cases hl : store.Listable now key
  case pos =>
    have ⟨n, hr⟩ := hl.lpush value
    have he : Command.Edits now (.lpush key value) := trivial
    exact .inl ⟨n, hr, Listable.edited hl he⟩
  case neg =>
    obtain ⟨⟨value, deadline?⟩, hs, data, rfl⟩ : ∃ slot, store.live? now key = some slot ∧
        ∃ data, slot.value = .bytes data := by
      simpa [Listable, Yields] using hl
    right
    constructor
    case left =>
      change ∃ cause, (store.lpush now key _).1 = .error cause
      rw [lpush, find?_settle_self, hs]
      exact ⟨_, rfl⟩
    case right =>
      rw [listed, live?_reply, hs, passed, Command.key, if_pos rfl]
      exact List.sublist_nil.mp (items_filter_sublist _ _)

theorem listed_later_sublist (hn : now ≤ later) (store : Store) (key : String) :
    (store.listed later key).Sublist (store.listed now key) := by
  cases hl : store.live? later key
  case none =>
    rw [listed, hl]
    exact List.nil_sublist _
  case some => exact listed_later hn (Option.isSome_of_eq_some hl) ▸ .refl _

end Store

namespace Chronicle

variable {chronicle last : Chronicle} {now : Instant} {command : Command}

-- What is listed stands in the order in which it was last pushed.
def Ordered (chronicle : Chronicle) : Prop :=
  ∀ key, Recent (chronicle.pushesTo key) (chronicle.store.listed chronicle.now key)

def Clears (chronicle : Chronicle) (cleared : Option (String × String)) : Prop :=
  ∀ key value, cleared = some (key, value) → value ∉ chronicle.store.listed chronicle.now key

theorem Ordered.wait (h : chronicle.Ordered) (hn : chronicle.now ≤ now) :
    Ordered { chronicle with now } :=
  fun key => (h key).sublist (Store.listed_later_sublist hn chronicle.store key)

theorem pushed_of_ne (hc : ∀ key value, command ≠ .lpush key value)
    (reply : Except StoreError command.Reply) : command.pushed reply = [] := by
  cases command
  case lpush key value => exact absurd rfl (hc key value)
  all_goals rfl

-- An item that is put in front must not be listed any more.
theorem Ordered.serve (h : chronicle.Ordered) (hn : chronicle.now ≤ now)
    (hc : ∀ key value, command = .lpush key value → value ∉ chronicle.store.listed now key) :
    (chronicle.serve now command).Ordered := by
  have hw := h.wait hn
  intro key
  by_cases hp : ∀ key value, command ≠ .lpush key value
  case pos =>
    have hr : (chronicle.serve now command).pushesTo key = chronicle.pushesTo key := by
      simp [pushesTo, Chronicle.serve, pushed_of_ne hp]
    exact hr ▸ (hw key).sublist (Store.listed_reply_sublist hp chronicle.store now key)
  case neg =>
    push Not at hp
    obtain ⟨other, value, rfl⟩ := hp
    by_cases hk : key = other
    case pos =>
      subst hk
      obtain ⟨n, hr, hl⟩ | ⟨⟨cause, hr⟩, hl⟩ := Store.listed_lpush chronicle.store now key value
      case inl =>
        have he : (chronicle.serve now (.lpush key value)).pushesTo key =
            value :: chronicle.pushesTo key := by
          simp [pushesTo, Chronicle.serve, hr, Command.pushed]
        rw [he]
        exact hl.symm ▸ (hw key).push (hc key value rfl)
      case inr => exact hl.symm ▸ .nil
    case neg =>
      have he : (chronicle.serve now (.lpush other value)).pushesTo key =
          chronicle.pushesTo key := by
        cases hr : (chronicle.store.reply now (.lpush other value)).1
        all_goals simp [pushesTo, Chronicle.serve, hr, Command.pushed, Ne.symm hk]
      have hl : (chronicle.store.reply now (.lpush other value)).2.listed now key =
          chronicle.store.listed now key := by
        rw [Store.listed, Store.live?_reply_of_ne _ _ _ hk, Store.listed]
      rw [he]
      exact hl.symm ▸ hw key

theorem clears_serve (chronicle : Chronicle) (now : Instant) (command : Command) :
    (chronicle.serve now command).Clears
      (command.cleared (chronicle.store.reply now command).1) := by
  intro key value he
  cases command
  case lrem other count item =>
    cases hr : (chronicle.store.reply now (.lrem other count item)).1
    case error cause =>
      rw [hr] at he
      cases he
    case ok n =>
      rw [hr, Command.cleared] at he
      split at he
      case isTrue hz =>
        cases he
        have ht : Command.Edits now (.lrem key count value) := hz
        have hl := Store.Listable.edited (Store.listable_of_lrem hr) ht
        change value ∉ (chronicle.store.reply now (.lrem key count value)).2.listed now key
        exact hl.symm ▸ fun hm => of_decide_eq_true (List.mem_filter.mp hm).2 rfl
      case isFalse => cases he
  all_goals cases he

theorem clears_none (chronicle : Chronicle) : chronicle.Clears none := by
  intro key value he
  cases he

-- Nothing is known of a command that was refused.
theorem clears_error (chronicle : Chronicle) (command : Command) (cause : StoreError) :
    chronicle.Clears (command.cleared (.error cause)) := by
  intro key value he
  cases command
  all_goals cases he

end Chronicle

-- From a cache with ordered lists a script leads to such a cache.
theorem Script.Runs.ordered {α : Type} {script : Script α} {chronicle last : Chronicle} {value : α}
    {cleared : Option (String × String)} (h : script.Runs chronicle value last)
    (ht : script.Tidy cleared) (hc : chronicle.Clears cleared) (ho : chronicle.Ordered) :
    last.Ordered := by
  induction h generalizing cleared
  case done => exact ho
  case refused command next chronicle last value error h hi =>
    exact hi (ht.2 _) (chronicle.clears_error command error) ho
  case served command next chronicle last value now hn h hi =>
    refine hi (ht.2 _) (chronicle.clears_serve now command) (ho.serve hn fun key value he hm => ?_)
    exact hc key value (ht.1 key value he) ((Store.listed_later_sublist hn _ _).subset hm)

end Entitlement
