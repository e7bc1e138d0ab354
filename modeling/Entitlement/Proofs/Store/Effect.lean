import Entitlement.Proofs.Fields
import Entitlement.Store.Command
/-!
What commands do to a cache as far as it can be seen. At any time a cache looks like the slots that
are live then: a command changes the one under its key, in a way that depends on nothing else, and
its reply depends on nothing else either.
-/

namespace Entitlement

open Store (Slot deadline)

-- What a command puts in the place of a live slot.
def Command.effect (now : Instant) : Command → Option Slot → Option Slot
  | setex _ seconds data, _ => some ⟨.bytes data, some (deadline now seconds)⟩
  | expire _ seconds, slot? =>
    if seconds = 0 then none else slot?.map ({ · with deadline? := some (deadline now seconds) })
  | persist _, slot? => slot?.map ({ · with deadline? := none })
  | delete _, _ => none
  | lpush _ value, none => some ⟨.list [value], none⟩
  | lpush _ value, some ⟨.list items, deadline?⟩ => some ⟨.list (value :: items), deadline?⟩
  | lrem _ count value, some ⟨.list items, deadline?⟩ =>
    let kept := Store.removed count value items
    if kept = [] then none else some ⟨.list kept, deadline?⟩
  | _, slot? => slot?

-- No command but one brings new bytes.
theorem Command.bytes_of_effect {command : Command} (h : command.effect now slot? = some slot)
    (hd : slot.value = .bytes data) : (∃ ttl, command = .setex command.key ttl data) ∨
      ∃ old, slot? = some old ∧ old.value = .bytes data := by
  cases command
  case setex key ttl bytes =>
    cases h
    cases hd
    exact .inl ⟨ttl, rfl⟩
  case get | ttl | lrange | keys => exact .inr ⟨slot, h, hd⟩
  case delete => exact nomatch h
  case expire key seconds =>
    rw [effect] at h
    split at h
    · exact nomatch h
    · obtain ⟨old, ho, rfl⟩ := Option.map_eq_some_iff.mp h
      exact .inr ⟨old, ho, hd⟩
  case persist key =>
    obtain ⟨old, ho, rfl⟩ := Option.map_eq_some_iff.mp h
    exact .inr ⟨old, ho, hd⟩
  case lpush key value =>
    match slot? with
    | none | some ⟨.list _, _⟩ =>
      cases h
      exact nomatch hd
    | some ⟨.bytes _, _⟩ => exact .inr ⟨slot, h, hd⟩
  case lrem key count value =>
    match slot? with
    | none => exact nomatch h
    | some ⟨.bytes _, _⟩ => exact .inr ⟨slot, h, hd⟩
    | some ⟨.list _, _⟩ =>
      rw [effect] at h
      split at h
      · exact nomatch h
      · cases h
        exact nomatch hd

namespace Store

variable {store after : Store} {slot : Slot} {now : Instant}

theorem toNat_deadline (now : Instant) (seconds : UInt64) : (deadline now seconds).toNat =
    min (now.toNat + 1000 * seconds.toNat) (UInt64.size - 1) :=
  UInt64.toNat_ofNat_of_lt' (Nat.lt_of_le_of_lt (Nat.min_le_right ..) (by decide))

theorem toNat_deadline_of_lt {seconds : UInt64}
    (h : now.toNat + 1000 * seconds.toNat < UInt64.size) :
    (deadline now seconds).toNat = now.toNat + 1000 * seconds.toNat := by
  rw [toNat_deadline, Nat.min_eq_left (Nat.le_sub_one_of_lt h)]

theorem find?_insert (store : Store) (key other : String) (slot : Slot) :
    (store.insert key slot).find? other = if other = key then some slot else store.find? other :=
  Fields.find?_insert store.slots key other slot

theorem find?_erase (store : Store) (key other : String) :
    (store.erase key).find? other = if other = key then none else store.find? other :=
  Fields.find?_erase store.slots key other

theorem live?_eq_some : store.live? now key = some slot ↔
    store.find? key = some slot ∧ slot.isExpired now = false := by
  simp [live?, Option.filter_eq_some_iff]

theorem live?_congr {other : Store} (h : other.find? key = store.find? key) (now : Instant) :
    other.live? now key = store.live? now key := by
  rw [live?, h, live?]

theorem Slot.isExpired_later {slot : Slot} (h : slot.isExpired now = true) (hn : now ≤ later) :
    slot.isExpired later = true := by
  obtain ⟨value, _ | deadline⟩ := slot
  · exact h
  · have hd : deadline ≤ now := of_decide_eq_true h
    exact decide_eq_true (UInt64.le_trans hd hn)

-- Nothing comes to life by the passing of time.
theorem filter_later (slot? : Option Slot) (hn : now ≤ later) :
    (slot?.filter (!·.isExpired now)).filter (!·.isExpired later) =
      slot?.filter (!·.isExpired later) := by
  rw [Option.filter_filter]
  congr 1
  funext slot
  cases hl : slot.isExpired later
  case true => simp
  case false =>
    have ho : slot.isExpired now = false :=
      Bool.eq_false_iff.mpr fun h => Bool.eq_false_iff.mp hl (Slot.isExpired_later h hn)
    simp [ho]

theorem live?_later (hn : now ≤ later) :
    store.live? later key = (store.live? now key).filter (!·.isExpired later) :=
  (filter_later _ hn).symm

theorem live?_eq_none_later (h : store.live? now key = none) (hn : now ≤ later) :
    store.live? later key = none := by
  rw [live?_later hn, h]
  rfl

-- What has the later deadline is there for longer.
theorem isSome_live?_of_le {early late : Instant}
    (hk : (store.find? key).map Slot.deadline? = some (some early))
    (ho : (store.find? other).map Slot.deadline? = some (some late)) (hd : early ≤ late)
    (h : (store.live? now key).isSome) : (store.live? now other).isSome := by
  obtain ⟨⟨_, _⟩, hk, ⟨⟩⟩ := Option.map_eq_some_iff.mp hk
  obtain ⟨⟨value, _⟩, ho, ⟨⟩⟩ := Option.map_eq_some_iff.mp ho
  have ⟨slot, hs⟩ := Option.isSome_iff_exists.mp h
  have ⟨hf, he⟩ := live?_eq_some.mp hs
  cases hk.symm.trans hf
  have he : ¬early ≤ now := of_decide_eq_false he
  exact Option.isSome_of_eq_some (live?_eq_some.mpr
    ⟨ho, decide_eq_false fun hl => he (UInt64.le_trans hd hl)⟩)

theorem live?_of_get (h : store.get now key = .ok (some data)) :
    ∃ deadline?, store.live? now key = some ⟨.bytes data, deadline?⟩ := by
  rw [get] at h
  split at h
  case h_2 hl =>
    cases h
    exact ⟨_, hl⟩
  all_goals exact nomatch h

theorem filter_live? (store : Store) (key : String) :
    (store.live? now key).filter (!·.isExpired now) = store.live? now key := by
  rw [live?, Option.filter_filter]
  simp

-- What is taken out when a slot is settled was not live any more.
theorem find?_settle (store : Store) (now : Instant) (key other : String) :
    (store.settle now key).find? other =
      if other = key then store.live? now key else store.find? other := by
  rw [settle]
  split
  case isTrue he =>
    rw [find?_erase]
    split
    case isTrue =>
      rw [live?]
      cases hf : store.find? key <;> simp_all [Option.filter]
    case isFalse => rfl
  case isFalse he =>
    split
    case isTrue hk =>
      subst hk
      rw [live?]
      cases hf : store.find? other <;> simp_all [Option.filter]
    case isFalse => rfl

theorem find?_settle_self (store : Store) (now : Instant) (key : String) :
    (store.settle now key).find? key = store.live? now key := by
  rw [find?_settle, if_pos rfl]

-- A cache differs from another one by what lies under one key, and all that can be seen there is
-- this slot.
structure Becomes (store : Store) (now : Instant) (key : String) (slot? : Option Slot)
    (after : Store) : Prop where
  others : ∀ other, other ≠ key → after.find? other = store.find? other
  own : after.live? now key = slot?.filter (!·.isExpired now)

namespace Becomes

theorem refl (store : Store) (key : String) : store.Becomes now key (store.live? now key) store where
  others _ _ := rfl
  own := (filter_live? store key).symm

theorem settle (store : Store) (key : String) :
    store.Becomes now key (store.live? now key) (store.settle now key) where
  others other ho := by rw [find?_settle, if_neg ho]
  own := by rw [filter_live?, live?, find?_settle_self, filter_live?]

theorem insert (store : Store) (key : String) (slot : Slot) :
    store.Becomes now key (some slot) ((store.settle now key).insert key slot) where
  others other ho := by rw [find?_insert, if_neg ho, find?_settle, if_neg ho]
  own := by rw [live?, find?_insert, if_pos rfl]

theorem erase (store : Store) (key : String) :
    store.Becomes now key none ((store.settle now key).erase key) where
  others other ho := by rw [find?_erase, if_neg ho, find?_settle, if_neg ho]
  own := by rw [live?, find?_erase, if_pos rfl]

theorem live?_of_ne (h : store.Becomes now key slot? after) (ho : other ≠ key) (later : Instant) :
    after.live? later other = store.live? later other := by
  rw [live?, h.others other ho, live?]

end Becomes

theorem becomes_expire (store : Store) (key : String) (seconds : UInt64) :
    store.Becomes now key (Command.effect now (.expire key seconds) (store.live? now key))
      (store.expire now key seconds).2 := by
  rw [expire, find?_settle_self]
  have hs : store.Becomes now key _ _ := .settle store key
  generalize store.live? now key = slot? at hs
  cases slot?
  case none => simpa [Command.effect] using hs
  case some slot =>
    dsimp only [Command.effect]
    split
    · exact .erase store key
    · exact .insert store key _

theorem becomes_persist (store : Store) (key : String) :
    store.Becomes now key (Command.effect now (.persist key) (store.live? now key))
      (store.persist now key).2 := by
  rw [persist, find?_settle_self]
  have hs : store.Becomes now key _ _ := .settle store key
  generalize store.live? now key = slot? at hs
  match slot? with
  | none | some ⟨_, none⟩ => exact hs
  | some ⟨value, some _⟩ => exact .insert store key ⟨value, none⟩

theorem becomes_lpush (store : Store) (key value : String) :
    store.Becomes now key (Command.effect now (.lpush key value) (store.live? now key))
      (store.lpush now key value).2 := by
  rw [lpush, find?_settle_self]
  have hs : store.Becomes now key _ _ := .settle store key
  generalize store.live? now key = slot? at hs
  match slot? with
  | none => exact .insert store key ⟨.list [value], none⟩
  | some ⟨.list items, deadline?⟩ => exact .insert store key ⟨.list (value :: items), deadline?⟩
  | some ⟨.bytes _, _⟩ => exact hs

theorem becomes_lrem (store : Store) (key : String) (count : Int64) (value : String) :
    store.Becomes now key (Command.effect now (.lrem key count value) (store.live? now key))
      (store.lrem now key count value).2 := by
  rw [lrem, find?_settle_self]
  have hs : store.Becomes now key _ _ := .settle store key
  generalize store.live? now key = slot? at hs
  match slot? with
  | none | some ⟨.bytes _, _⟩ => exact hs
  | some ⟨.list items, deadline?⟩ =>
    dsimp only [Command.effect]
    split
    · exact .erase store key
    · exact .insert store key _

-- Only what lies under the key of a command changes.
theorem becomes_reply (store : Store) (now : Instant) (command : Command) :
    store.Becomes now command.key (command.effect now (store.live? now command.key))
      (store.reply now command).2 := by
  cases command
  case get key | ttl key | lrange key | keys key => exact .refl store key
  case setex key seconds data =>
    refine ⟨fun other ho => (find?_insert ..).trans (if_neg ho), ?_⟩
    exact congrArg (Option.filter _) ((find?_insert ..).trans (if_pos rfl))
  case expire key seconds => exact becomes_expire store key seconds
  case persist key => exact becomes_persist store key
  case delete key =>
    refine ⟨fun other ho => (find?_erase ..).trans (if_neg ho), ?_⟩
    exact congrArg (Option.filter _) ((find?_erase ..).trans (if_pos rfl))
  case lpush key value => exact becomes_lpush store key value
  case lrem key count value => exact becomes_lrem store key count value

theorem live?_reply_of_ne (store : Store) (now later : Instant) (h : key ≠ command.key) :
    (store.reply now command).2.live? later key = store.live? later key :=
  (store.becomes_reply now command).live?_of_ne h later

-- The bytes that can be read under a key have a property.
def Yields (store : Store) (now : Instant) (key : String) (p : ByteArray → Prop) : Prop :=
  ∀ slot data, store.live? now key = some slot → slot.value = .bytes data → p data

theorem Yields.get (h : store.Yields now key p) (hg : store.get now key = .ok (some data)) :
    p data := by
  have ⟨deadline?, hl⟩ := live?_of_get hg
  exact h _ data hl rfl

theorem Yields.reply (h : store.Yields now key p)
    (hs : ∀ ttl data, command = .setex key ttl data → p data) :
    (store.reply now command).2.Yields now key p := by
  intro slot data hl hd
  by_cases hk : key = command.key
  case neg => exact h slot data (live?_reply_of_ne store now now hk ▸ hl) hd
  case pos =>
    subst hk
    rw [(store.becomes_reply now command).own] at hl
    have he : command.effect now (store.live? now command.key) = some slot :=
      (Option.filter_eq_some_iff.mp hl).1
    cases Command.bytes_of_effect he hd
    case inl hc =>
      have ⟨ttl, hc⟩ := hc
      exact hs ttl data hc
    case inr ho =>
      have ⟨old, ho, hb⟩ := ho
      exact h old data ho hb

-- The cache after several commands.
def serve (store : Store) (now : Instant) (commands : List Command) : Store :=
  commands.foldl (fun store command => (store.reply now command).2) store

theorem find?_serve (store : Store) (now : Instant) {commands : List Command}
    (h : ∀ command ∈ commands, command.key ≠ key) :
    (store.serve now commands).find? key = store.find? key := by
  induction commands generalizing store
  case nil => rfl
  case cons command commands hi =>
    refine (hi _ fun other ho => h other (.tail _ ho)).trans ?_
    exact (store.becomes_reply now command).others key (h command List.mem_cons_self).symm

-- What is live under a key after a command.
def passed (now : Instant) (key : String) (slot? : Option Slot) (command : Command) : Option Slot :=
  if command.key = key then (command.effect now slot?).filter (!·.isExpired now) else slot?

theorem live?_reply (store : Store) (now : Instant) (command : Command) (key : String) :
    (store.reply now command).2.live? now key =
      passed now key (store.live? now key) command := by
  rw [passed]
  split
  case isTrue hk => exact hk ▸ (store.becomes_reply now command).own
  case isFalse hk => exact live?_reply_of_ne store now now (Ne.symm hk)

theorem live?_serve (store : Store) (now : Instant) (commands : List Command) (key : String) :
    (store.serve now commands).live? now key =
      commands.foldl (passed now key) (store.live? now key) := by
  induction commands generalizing store
  case nil => rfl
  case cons command commands hi =>
    rw [List.foldl_cons, ← live?_reply]
    exact hi _

-- Commands about other keys can be left out.
theorem live?_serve_filter (store : Store) (now : Instant) (commands : List Command)
    (key : String) : (store.serve now (commands.filter (·.key = key))).live? now key =
      (store.serve now commands).live? now key := by
  rw [live?_serve, live?_serve, List.foldl_filter]
  refine congrArg (List.foldl · _ _) (funext₂ fun slot? command => ?_)
  by_cases hk : command.key = key
  all_goals simp [passed, hk]

-- Commands about single keys see nothing but what is live there.
theorem reply_congr (h : store.live? now command.key = after.live? now command.key)
    (hk : ∀ start, command ≠ .keys start) :
    (store.reply now command).1 = (after.reply now command).1 := by
  cases command <;> dsimp only [Command.key] at h
  case keys start => exact absurd rfl (hk start)
  case setex => rfl
  case get => simp only [reply, get, h]
  case ttl => simp only [reply, ttl, h]
  case lrange => simp only [reply, lrange, h]
  case delete key =>
    change Except.ok (store.delete now key).1 = Except.ok (after.delete now key).1
    simp only [delete, h]
  case expire key seconds =>
    change Except.ok (store.expire now key seconds).1 = Except.ok (after.expire now key seconds).1
    simp only [expire, find?_settle_self, h]
    split
    · rfl
    · split <;> rfl
  case persist key =>
    change Except.ok (store.persist now key).1 = Except.ok (after.persist now key).1
    simp only [persist, find?_settle_self, h]
    split <;> rfl
  case lpush key value =>
    change (store.lpush now key value).1 = (after.lpush now key value).1
    simp only [lpush, find?_settle_self, h]
    split <;> rfl
  case lrem key count value =>
    change (store.lrem now key count value).1 = (after.lrem now key count value).1
    simp only [lrem, find?_settle_self, h]
    split <;> rfl

end Store
end Entitlement
