import Entitlement.Proofs.Store.Guard
/-!
Lists in a cache, as far as they can be seen: which items are listed under a key, and what becomes of
them when one is taken out or put in front.
-/

namespace Entitlement

-- What a command does to the items under its key.
def Command.edit : Command → List String → List String
  | lpush _ value, items => value :: items
  | lrem _ _ value, items => items.filter (· ≠ value)
  | _, items => items

-- The item that it puts in or takes out.
def Command.item? : Command → Option String
  | lpush _ value | lrem _ _ value => some value
  | _ => none

-- That is all that it does to a list, for which it does not fail: it takes out equal items all at
-- once, and the list goes on.
def Command.Edits (now : Instant) : Command → Prop
  | get _ | setex .. | delete _ => False
  | expire _ seconds => seconds ≠ 0 ∧ now < Store.deadline now seconds
  | lrem _ count _ => count = 0
  | _ => True

namespace Store

def Slot.items (slot : Slot) : List String :=
  match slot.value with
  | .list items => items
  | .bytes _ => []

variable {store : Store} {now : Instant} {key value : String} {items : List String}

-- Nothing is in the way of a list under a key.
def Listable (store : Store) (now : Instant) (key : String) : Prop :=
  store.Yields now key fun _ => False

def listed (store : Store) (now : Instant) (key : String) : List String :=
  (store.live? now key).elim [] Slot.items

theorem listed_congr {other : Store} (h : other.find? key = store.find? key) :
    other.listed now key = store.listed now key := by
  rw [listed, live?_congr h, listed]

theorem Guards.listable (h : store.Guards key fun _ => False) : store.Listable now key :=
  fun slot data hl => h slot data (live?_eq_some.mp hl).1

theorem Listable.live? (h : store.Listable now key) : store.live? now key = none ∨
    ∃ items deadline?, store.live? now key = some ⟨.list items, deadline?⟩ := by
  match hl : store.live? now key with
  | none => exact .inl rfl
  | some ⟨.list items, deadline?⟩ => exact .inr ⟨items, deadline?, rfl⟩
  | some ⟨.bytes data, _⟩ => exact (h _ data hl rfl).elim

theorem listed_of_live? (h : store.live? now key = some ⟨.list items, deadline?⟩) :
    store.listed now key = items := by
  rw [listed, h]
  rfl

theorem live?_of_mem_listed (h : value ∈ store.listed now key) : ∃ deadline?,
    store.live? now key = some ⟨.list (store.listed now key), deadline?⟩ := by
  match hl : store.live? now key with
  | some ⟨.list items, deadline?⟩ => exact ⟨deadline?, by rw [listed_of_live? hl]⟩
  | none | some ⟨.bytes _, _⟩ =>
    rw [listed, hl] at h
    exact nomatch h

-- What is still listed later is what is listed now.
theorem listed_later (hn : now ≤ later) (h : (store.live? later key).isSome) :
    store.listed later key = store.listed now key := by
  have ⟨slot, hs⟩ := Option.isSome_iff_exists.mp h
  have ho := hs
  rw [live?_later hn] at ho
  rw [listed, listed, hs, (Option.filter_eq_some_iff.mp ho).1]

theorem mem_listed_of_later (hn : now ≤ later) (h : value ∈ store.listed later key) :
    value ∈ store.listed now key := by
  have ⟨_, hl⟩ := live?_of_mem_listed h
  exact listed_later hn (Option.isSome_of_eq_some hl) ▸ h

theorem Listable.lrange (h : store.Listable now key) :
    store.lrange now key = .ok (store.listed now key) := by
  obtain hl | ⟨_, _, hl⟩ := h.live?
  all_goals
    rw [Store.lrange, listed, hl]
    rfl

theorem Listable.lrem (h : store.Listable now key) (count : Int64) (value : String) :
    ∃ n, (store.reply now (.lrem key count value)).1 = .ok n := by
  change ∃ n, (store.lrem now key count value).1 = .ok n
  obtain hl | ⟨_, _, hl⟩ := h.live?
  all_goals
    rw [Store.lrem, find?_settle_self, hl]
    exact ⟨_, rfl⟩

theorem listable_of_lrem (h : (store.reply now (.lrem key count value)).1 = .ok n) :
    store.Listable now key := by
  intro slot data hl hd
  change (store.lrem now key count value).1 = .ok n at h
  rw [Store.lrem, find?_settle_self, hl] at h
  obtain ⟨_, deadline?⟩ := slot
  cases hd
  cases h

theorem Listable.lpush (h : store.Listable now key) (value : String) :
    ∃ n, (store.reply now (.lpush key value)).1 = .ok n := by
  change ∃ n, (store.lpush now key value).1 = .ok n
  obtain hl | ⟨_, _, hl⟩ := h.live?
  all_goals
    rw [Store.lpush, find?_settle_self, hl]
    exact ⟨_, rfl⟩

theorem Listable.reply (h : store.Listable now key)
    (hc : ∀ ttl data, command ≠ .setex key ttl data) :
    (store.reply now command).2.Listable now key :=
  Yields.reply h fun ttl data he => absurd he (hc ttl data)

theorem removeFirst_of_length_le (h : items.length ≤ limit) :
    removeFirst value limit items = items.filter (· ≠ value) := by
  induction items generalizing limit
  case nil => cases limit <;> rfl
  case cons item rest hi =>
    match limit with
    | limit + 1 =>
      have hr : rest.length ≤ limit := Nat.le_of_succ_le_succ h
      rw [removeFirst]
      split
      case isTrue he => simp [he, hi hr]
      case isFalse he => simp [he, hi (Nat.le_succ_of_le hr)]

theorem removed_zero (value : String) (items : List String) :
    removed 0 value items = items.filter (· ≠ value) := by
  rw [removed, if_pos rfl, removeFirst_of_length_le (Nat.le_refl _)]

-- Taking an item out leaves the others where they are, for as long as there are any.
theorem passed_lrem {deadline? : Option Instant} (hd : deadline?.any (· ≤ now) = false) :
    passed now key (some ⟨.list items, deadline?⟩) (.lrem key 0 value) =
      if items.filter (· ≠ value) = [] then none
      else some ⟨.list (items.filter (· ≠ value)), deadline?⟩ := by
  simp only [passed, Command.key, Command.effect, removed_zero, if_true]
  split
  · rfl
  · simp [Option.filter, Slot.isExpired, hd]

-- An item that is taken out and put in front again is listed once.
theorem Listable.enlist (h : store.Listable now key) (value : String) : ∃ deadline?,
    [.lrem key 0 value, .lpush key value].foldl (passed now key) (store.live? now key) =
      some ⟨.list (value :: (store.listed now key).filter (· ≠ value)), deadline?⟩ := by
  obtain hl | ⟨items, deadline?, hl⟩ := h.live?
  case inl =>
    exact ⟨none, by simp [passed, Command.key, Command.effect, listed, hl, Slot.isExpired]⟩
  case inr =>
    rw [hl]
    have hd : deadline?.any (· ≤ now) = false := (live?_eq_some.mp hl).2
    rw [listed_of_live? hl, List.foldl_cons, passed_lrem hd]
    by_cases hi : items.filter (· ≠ value) = []
    case pos =>
      rw [if_pos hi, hi]
      exact ⟨none, by simp [passed, Command.key, Command.effect, Slot.isExpired]⟩
    case neg =>
      rw [if_neg hi]
      exact ⟨deadline?, by
        simp [passed, Command.key, Command.effect, Option.filter, Slot.isExpired, hd]⟩

theorem Listable.edited {command : Command} (h : store.Listable now command.key)
    (hc : command.Edits now) : (store.reply now command).2.listed now command.key =
      command.edit (store.listed now command.key) := by
  rw [listed, live?_reply, listed]
  obtain hl | ⟨items, deadline?, hl⟩ := h.live?
  case inl =>
    rw [hl]
    cases command
    case get | setex | delete => exact hc.elim
    case expire => simp [passed, Command.effect, hc.1, Command.edit]
    all_goals
      simp [passed, Command.key, Command.effect, Command.edit, Option.filter, Slot.isExpired,
        Slot.items]
  case inr =>
    have hd : deadline?.any (· ≤ now) = false := (live?_eq_some.mp hl).2
    rw [hl]
    cases command
    case get | setex | delete => exact hc.elim
    case expire =>
      simp [passed, Command.effect, Command.edit, Option.filter, Slot.isExpired, hc.1, hc.2,
        Slot.items]
    case lrem key count value =>
      cases hc
      change Option.elim (passed now key _ _) _ _ = _
      rw [passed_lrem hd]
      split
      case isTrue he => exact he.symm
      case isFalse => rfl
    all_goals
      simp [passed, Command.key, Command.effect, Command.edit, Option.filter, Slot.isExpired, hd,
        Slot.items]

theorem Listable.answered {command : Command} (h : store.Listable now command.key)
    (hc : command.Edits now) : ∃ reply, (store.reply now command).1 = .ok reply := by
  cases command
  case get | setex | delete => exact hc.elim
  case lpush key value => exact h.lpush value
  case lrem key count value => exact h.lrem count value
  case lrange key => exact ⟨_, h.lrange⟩
  all_goals exact ⟨_, rfl⟩

theorem Listable.listed_reply {command : Command} (h : store.Listable now key)
    (hc : command.key = key → command.Edits now) : (store.reply now command).2.listed now key =
      if command.key = key then command.edit (store.listed now key) else store.listed now key := by
  split
  case isTrue hk =>
    subst hk
    exact h.edited (hc rfl)
  case isFalse hk => rw [listed, live?_reply_of_ne store now now (Ne.symm hk), listed]

theorem Command.Edits.ne_setex {command : Command} (hc : command.key = key → command.Edits now) :
    ∀ ttl data, command ≠ .setex key ttl data := by
  rintro ttl data rfl
  exact hc rfl

theorem Listable.spared {commands : List Command} (h : store.Listable now key)
    (hc : ∀ command ∈ commands, ∀ ttl data, command ≠ .setex key ttl data) :
    (store.serve now commands).Listable now key := by
  induction commands generalizing store
  case nil => exact h
  case cons command commands hi =>
    exact hi (h.reply (hc command List.mem_cons_self)) fun other ho => hc other (.tail _ ho)

-- A list in the cache is edited by the commands about it, one after another.
theorem Listable.listed_serve {commands : List Command} (h : store.Listable now key)
    (hc : ∀ command ∈ commands, command.key = key → command.Edits now) :
    (store.serve now commands).listed now key =
      (commands.filter (·.key = key)).foldl (fun items command => command.edit items)
        (store.listed now key) := by
  induction commands generalizing store
  case nil => rfl
  case cons command commands hi =>
    have hf := hc command List.mem_cons_self
    have hr := hi (h.reply (Command.Edits.ne_setex hf)) fun other ho => hc other (.tail _ ho)
    refine hr.trans ?_
    rw [h.listed_reply hf, List.filter_cons]
    split <;> simp_all

-- Some of the items of a list depend on the commands about them alone.
theorem filter_edit (p : String → Bool) (command : Command) (items : List String) :
    (command.edit items).filter p =
      if command.item?.any p then command.edit (items.filter p) else items.filter p := by
  cases command
  case lpush key value =>
    cases hp : p value
    all_goals simp [Command.edit, Command.item?, hp]
  case lrem key count value =>
    cases hp : p value
    case true => simp [Command.edit, Command.item?, hp, Bool.and_comm]
    case false =>
      simp only [Command.edit, Command.item?, Option.any_some, hp, List.filter_filter]
      refine List.filter_congr fun item _ => ?_
      by_cases hi : item = value
      all_goals simp [hi, hp]
  all_goals rfl

theorem filter_edits (p : String → Bool) (commands : List Command) (items : List String) :
    (commands.foldl (fun items command => command.edit items) items).filter p =
      (commands.filter (·.item?.any p)).foldl (fun items command => command.edit items)
        (items.filter p) := by
  induction commands generalizing items
  case nil => rfl
  case cons command commands hi =>
    rw [List.foldl_cons, hi, filter_edit, List.filter_cons]
    split <;> rfl

-- So these items are the same after two series of commands that agree in those about them.
theorem Listable.filter_listed_congr {p : String → Bool} {commands others : List Command}
    (h : store.Listable now key)
    (hc : ∀ command ∈ commands, command.key = key → command.Edits now)
    (ho : ∀ command ∈ others, command.key = key → command.Edits now)
    (he : (commands.filter fun command => command.item?.any p && command.key = key) =
      others.filter fun command => command.item?.any p && command.key = key) :
    ((store.serve now commands).listed now key).filter p =
      ((store.serve now others).listed now key).filter p := by
  rw [h.listed_serve hc, h.listed_serve ho, filter_edits, filter_edits, List.filter_filter,
    List.filter_filter, he]

end Store
end Entitlement
