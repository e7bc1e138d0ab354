import Entitlement.Proofs.Store.Trace
/-!
A cache that forgets at once: nothing stays in it after its deadline, and no list without items. A
cache that lets expired slots lie cannot be told apart from it.
-/

namespace Entitlement

open Store (Slot Value deadline secondsUntil removed wantsString wantsList)

structure Eager where
  entries : Fields Slot
  ascending : entries.Ascending

namespace Eager

def empty : Eager := ⟨[], Fields.ascending_nil⟩

def find? (eager : Eager) (key : String) : Option Slot :=
  eager.entries.find? key

def insert (eager : Eager) (key : String) (slot : Slot) : Eager :=
  ⟨eager.entries.insert key slot, Fields.insert_ascending eager.ascending key slot⟩

def erase (eager : Eager) (key : String) : Eager :=
  ⟨eager.entries.erase key, Fields.erase_ascending eager.ascending key⟩

def isVoid : Value → Bool
  | .list [] => true
  | _ => false

-- Whether the deadline is still to come and the value is no list that has become empty.
def stands (now : Instant) (slot : Slot) : Bool :=
  slot.deadline?.all (now < ·) && !isVoid slot.value

-- What is left at a time.
def tidy (eager : Eager) (now : Instant) : Eager :=
  ⟨eager.entries.filter fun entry => stands now entry.2, eager.ascending.filter _⟩

-- All entries count as they are here: nothing is said about what has expired or become empty.
def serve (eager : Eager) (now : Instant) : (command : Command) →
    Except StoreError command.Reply × Eager
  | .get key =>
    match eager.find? key with
    | none => (.ok none, eager)
    | some ⟨.bytes data, _⟩ => (.ok (some data), eager)
    | some ⟨.list _, _⟩ => (.error (wantsString key), eager)
  | .setex key seconds data =>
    (.ok (), eager.insert key ⟨.bytes data, some (deadline now seconds)⟩)
  | .expire key seconds =>
    match eager.find? key with
    | none => (.ok false, eager)
    | some slot =>
      (.ok true, eager.insert key { slot with deadline? := some (deadline now seconds) })
  | .persist key =>
    match eager.find? key with
    | none => (.ok false, eager)
    | some slot => (.ok slot.deadline?.isSome, eager.insert key { slot with deadline? := none })
  | .delete key => (.ok (eager.find? key).isSome, eager.erase key)
  | .ttl key =>
    match eager.find? key with
    | none => (.ok .missing, eager)
    | some ⟨_, none⟩ => (.ok .permanent, eager)
    | some ⟨_, some deadline⟩ => (.ok (.seconds (secondsUntil now deadline)), eager)
  | .lpush key value =>
    match eager.find? key with
    | none => (.ok 1, eager.insert key ⟨.list [value], none⟩)
    | some ⟨.list items, deadline?⟩ =>
      (.ok (items.length + 1), eager.insert key ⟨.list (value :: items), deadline?⟩)
    | some ⟨.bytes _, _⟩ => (.error (wantsList key), eager)
  | .lrem key count value =>
    match eager.find? key with
    | none => (.ok 0, eager)
    | some ⟨.list items, deadline?⟩ =>
      let kept := removed count value items
      (.ok (items.length - kept.length), eager.insert key ⟨.list kept, deadline?⟩)
    | some ⟨.bytes _, _⟩ => (.error (wantsList key), eager)
  | .lrange key =>
    match eager.find? key with
    | none => (.ok [], eager)
    | some ⟨.list items, _⟩ => (.ok items, eager)
    | some ⟨.bytes _, _⟩ => (.error (wantsList key), eager)
  | .keys start => (.ok (eager.entries.names.filter (start.isPrefixOf ·)), eager)

-- Entries go at the very moment, so that a command finds and leaves none that should be gone.
def call : Server Eager
  | eager, now, .command command =>
    let (reply, after) := (eager.tidy now).serve now command
    (reply, after.tidy now)
  | eager, now, .size => (.ok (eager.tidy now).entries.length, eager.tidy now)

variable {eager : Eager} {store : Store} {slot : Slot} {now later : Instant}

theorem find?_insert (eager : Eager) (key other : String) (slot : Slot) :
    (eager.insert key slot).find? other = if other = key then some slot else eager.find? other :=
  Fields.find?_insert eager.entries key other slot

theorem find?_erase (eager : Eager) (key other : String) :
    (eager.erase key).find? other = if other = key then none else eager.find? other :=
  Fields.find?_erase eager.entries key other

theorem find?_tidy (eager : Eager) (now : Instant) (key : String) :
    (eager.tidy now).find? key = (eager.find? key).filter (stands now) :=
  Fields.find?_filter eager.ascending _ key

theorem find?_tidy_self (eager : Eager) (now : Instant) (key : String) :
    ((eager.tidy now).tidy now).find? key = (eager.tidy now).find? key := by
  rw [find?_tidy, find?_tidy, Option.filter_filter]
  simp only [Bool.and_self]

theorem stands_iff : stands now slot = (!slot.isExpired now && !isVoid slot.value) := by
  obtain ⟨value, _ | deadline⟩ := slot
  · rfl
  · have hd : decide (now < deadline) = !decide (deadline ≤ now) := by simp [← UInt64.not_le]
    simp [stands, Slot.isExpired, hd]

theorem stands_later (hn : now ≤ later) :
    stands later slot = (stands now slot && !slot.isExpired later) := by
  cases he : slot.isExpired later
  case true => simp [stands_iff, he]
  case false =>
    have hb : slot.isExpired now = false :=
      Bool.eq_false_iff.mpr fun hx => Bool.false_ne_true (he.symm.trans (Slot.isExpired_later hx hn))
    simp [stands_iff, he, hb]

-- What is left in the one is live in the other.
def Mirrors (now : Instant) (store : Store) (eager : Eager) : Prop :=
  ∀ key, (eager.tidy now).find? key = store.live? now key

theorem mirrors_empty (now : Instant) : Mirrors now .empty empty :=
  fun _ => rfl

namespace Mirrors

theorem wait (h : Mirrors now store eager) (hn : now ≤ later) : Mirrors later store eager := by
  intro key
  rw [Store.live?_later hn, ← h, find?_tidy, find?_tidy, Option.filter_filter]
  congr
  funext slot
  exact stands_later hn

theorem entries (h : Mirrors now store eager) : (eager.tidy now).entries = store.live now :=
  (eager.tidy now).ascending.ext (store.live_ascending now) fun key => by
    rw [Store.find?_live, ← h key, find?]

end Mirrors

theorem deadline_zero (now : Instant) : deadline now 0 = now := by
  have hl : now.toNat ≤ UInt64.size - 1 := Nat.le_sub_one_of_lt now.toNat_lt
  exact UInt64.toNat_inj.mp ((Store.toNat_deadline now 0).trans (Nat.min_eq_left hl))

-- One of these caches differs from another one by the entry under one key, of which nothing more is
-- left than of this slot.
structure Becomes (eager : Eager) (now : Instant) (key : String) (slot? : Option Slot)
    (after : Eager) : Prop where
  others : ∀ other, other ≠ key → after.find? other = eager.find? other
  own : (after.find? key).filter (stands now) = slot?.filter (!·.isExpired now)

namespace Becomes

theorem refl (h : ∀ slot, eager.find? key = some slot → isVoid slot.value = false) :
    eager.Becomes now key (eager.find? key) eager where
  others _ _ := rfl
  own := by
    cases hf : eager.find? key
    case none => rfl
    case some slot => simp [Option.filter, stands_iff, h slot hf]

theorem insert (eager : Eager) (key : String) (h : isVoid slot.value = false) :
    eager.Becomes now key (some slot) (eager.insert key slot) where
  others other ho := by rw [find?_insert, if_neg ho]
  own := by simp [find?_insert, Option.filter, stands_iff, h]

theorem insert_gone (eager : Eager) (key : String) (h : stands now slot = false) :
    eager.Becomes now key none (eager.insert key slot) where
  others other ho := by rw [find?_insert, if_neg ho]
  own := by simp [find?_insert, Option.filter, h]

theorem erase (eager : Eager) (key : String) :
    eager.Becomes now key none (eager.erase key) where
  others other ho := by rw [find?_erase, if_neg ho]
  own := by simp [find?_erase]

end Becomes

variable {key : String} {command : Command}

theorem isVoid_list (h : kept ≠ []) : isVoid (.list kept) = false := by
  cases kept
  case nil => exact absurd rfl h
  case cons => rfl

theorem becomes_serve (hs : ∀ slot, eager.find? command.key = some slot → isVoid slot.value = false) :
    eager.Becomes now command.key (command.effect now (eager.find? command.key))
      (eager.serve now command).2 := by
  have hr : eager.Becomes now command.key _ eager := .refl hs
  cases command
  all_goals
    rw [serve]
    dsimp only [Command.key] at hs hr ⊢
  case get key | ttl key | lrange key =>
    split
    all_goals exact hr
  case keys start => exact hr
  case setex key seconds data => exact .insert eager key rfl
  case delete key => exact .erase eager key
  all_goals generalize eager.find? _ = slot? at hs hr ⊢
  case expire key seconds =>
    rw [Command.effect]
    cases slot?
    case none => simpa using hr
    case some slot =>
      split
      case isTrue hz =>
        refine .insert_gone eager key ?_
        simp [stands_iff, Slot.isExpired, hz, deadline_zero]
      case isFalse => exact .insert eager key (hs slot rfl)
  case persist key =>
    cases slot?
    case none => exact hr
    case some slot => exact .insert eager key (hs slot rfl)
  case lpush key value =>
    rcases slot? with _ | ⟨_ | items, _⟩
    · exact .insert eager key rfl
    · exact hr
    · exact .insert eager key rfl
  case lrem key count value =>
    rcases slot? with _ | ⟨_ | items, deadline?⟩
    case none | some.bytes => exact hr
    case some.list =>
      dsimp only [Command.effect]
      split
      case isTrue hk => exact .insert_gone eager key (by simp [stands_iff, hk, isVoid])
      case isFalse hk => exact .insert eager key (isVoid_list hk)

-- The replies are those of a cache in which just these slots are live.
theorem Mirrors.reply (h : Mirrors now store eager) (command : Command) :
    (store.reply now command).1 = ((eager.tidy now).serve now command).1 := by
  cases command
  case setex => rfl
  case keys start =>
    change Except.ok (store.keys now start) = _
    rw [serve, h.entries]
    rfl
  all_goals rw [serve, h]
  case get key =>
    change store.get now key = _
    rw [Store.get]
    rcases store.live? now key with _ | ⟨_ | _, _⟩ <;> rfl
  case ttl key =>
    change Except.ok (store.ttl now key) = _
    rw [Store.ttl]
    rcases store.live? now key with _ | ⟨_, _ | _⟩ <;> rfl
  case lrange key =>
    change store.lrange now key = _
    rw [Store.lrange]
    rcases store.live? now key with _ | ⟨_ | _, _⟩ <;> rfl
  case delete key => rfl
  case expire key seconds =>
    change Except.ok (store.expire now key seconds).1 = _
    rw [Store.expire, Store.find?_settle_self]
    cases store.live? now key
    case none => rfl
    case some =>
      dsimp only
      split <;> rfl
  case persist key =>
    change Except.ok (store.persist now key).1 = _
    rw [Store.persist, Store.find?_settle_self]
    rcases store.live? now key with _ | ⟨_, _ | _⟩ <;> rfl
  case lpush key value =>
    change (store.lpush now key value).1 = _
    rw [Store.lpush, Store.find?_settle_self]
    rcases store.live? now key with _ | ⟨_ | _, _⟩ <;> rfl
  case lrem key count value =>
    change (store.lrem now key count value).1 = _
    rw [Store.lrem, Store.find?_settle_self]
    rcases store.live? now key with _ | ⟨_ | _, _⟩ <;> rfl

theorem Mirrors.not_void (h : Mirrors now store eager) (hl : store.live? now key = some slot) :
    isVoid slot.value = false := by
  rw [← h, find?_tidy, Option.filter_eq_some_iff, stands_iff] at hl
  simpa using (Bool.and_eq_true_iff.mp hl.2).2

theorem Mirrors.next (h : Mirrors now store eager) (command : Command) :
    Mirrors now (store.reply now command).2 (((eager.tidy now).serve now command).2.tidy now) := by
  have hb : (eager.tidy now).Becomes now command.key _ ((eager.tidy now).serve now command).2 :=
    becomes_serve fun slot hs => h.not_void ((h _).symm.trans hs)
  intro key
  rw [find?_tidy_self, find?_tidy]
  by_cases hk : key = command.key
  case pos => rw [hk, hb.own, (store.becomes_reply now command).own, h]
  case neg =>
    rw [hb.others key hk, ← find?_tidy, find?_tidy_self, h, Store.live?_reply_of_ne _ _ _ hk]

theorem call_simulates : Store.call.Simulates call Mirrors where
  pass := Mirrors.wait
  reply h called := by
    cases called
    case command command => exact h.reply command
    case size => simp only [Store.call, call, Store.size_eq, h.entries]
  next h called := by
    cases called
    case command command => exact h.next command
    case size => exact fun key => (find?_tidy_self ..).trans (h key)

-- Whatever is called for from an empty cache on, the answers are those of the cache that forgets at
-- once. No list that is live is empty, and a command that fails changes nothing that is live.
theorem indistinguishable_of_ordered {calls : List (Instant × Call)}
    (ht : (calls.map Prod.fst).Pairwise (· ≤ ·)) :
    let store := (Store.call.trace .empty calls).2
    (Store.call.trace .empty calls).1 = (call.trace empty calls).1 ∧
      ∀ now, (∀ timed ∈ calls, timed.1 ≤ now) →
        ((call.trace empty calls).2.tidy now).entries = store.live now ∧
        (∀ key deadline?, store.live? now key ≠ some ⟨.list [], deadline?⟩) ∧
        ∀ command error, (store.reply now command).1 = .error error →
          ∀ later, now ≤ later → (store.reply now command).2.live later = store.live later := by
  intro store
  have ht : (0 :: calls.map Prod.fst).Pairwise (· ≤ ·) :=
    List.pairwise_cons.mpr ⟨fun _ _ => UInt64.zero_le, ht⟩
  have hs : Mirrors 0 .empty empty := mirrors_empty 0
  refine ⟨call_simulates.answers_eq hs ht, fun now hn => ?_⟩
  have hm : Mirrors now store _ := call_simulates.alike_trace hs ht UInt64.zero_le hn
  refine ⟨hm.entries, fun key deadline? hl => ?_, fun command error he later hn => ?_⟩
  · exact Bool.false_ne_true (hm.not_void hl).symm
  · exact ((Store.alike_of_error he).wait hn).live

-- A list is pushed to before its deadline and after it, and then taken for bytes.
theorem indistinguishable_after_lapse :
    let calls : List (Instant × Call) := [
      (0, .command (.lpush "k" "a")), (0, .command (.expire "k" 1)), (999, .command (.lpush "k" "b")),
      (1000, .size), (1000, .command (.lpush "k" "c")), (1000, .command (.ttl "k")),
      (2000, .command (.get "k"))]
    (calls.map Prod.fst).Pairwise (· ≤ ·) ∧
      (Store.call.trace .empty calls).1 = (call.trace empty calls).1 := by
  intro calls
  have ht : (calls.map Prod.fst).Pairwise (· ≤ ·) := by decide
  exact ⟨ht, (indistinguishable_of_ordered ht).1⟩

end Eager
end Entitlement
