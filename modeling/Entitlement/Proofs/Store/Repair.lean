import Entitlement.Proofs.Store.Exchange
import Entitlement.Proofs.Store.Listing
/-!
Stores that differ by one item of a list. As soon as the item is taken out they cannot be told apart any
more, however the one list was changed by taking it out or putting it in before.
-/

namespace Entitlement.Store

variable {store other : Store} {now later : Instant} {key item record : String}
  {slot? : Option Slot} {items : List String} {deadline? : Option Instant}

-- What is left of a slot once an item is taken out of its list.
def purged (now : Instant) (key item : String) (slot? : Option Slot) : Option Slot :=
  passed now key (slot?.filter (!·.isExpired now)) (.lrem key 0 item)

@[simp]
theorem purged_none : purged now key item none = none := by
  simp [purged, passed, Command.key, Command.effect]

theorem purged_bytes : purged now key item (some ⟨.bytes data, deadline?⟩) =
    if deadline?.any (· ≤ now) then none else some ⟨.bytes data, deadline?⟩ := by
  cases hd : deadline?.any (· ≤ now)
  all_goals simp [purged, passed, Command.key, Command.effect, Option.filter, Slot.isExpired, hd]

theorem purged_list : purged now key item (some ⟨.list items, deadline?⟩) =
    if deadline?.any (· ≤ now) ∨ items.filter (· ≠ item) = [] then none
    else some ⟨.list (items.filter (· ≠ item)), deadline?⟩ := by
  rw [purged]
  cases hd : deadline?.any (· ≤ now)
  case true => simp [passed, Command.key, Command.effect, Option.filter, Slot.isExpired, hd]
  case false =>
    have hl : (some ⟨.list items, deadline?⟩ : Option Slot).filter (!·.isExpired now) =
        some ⟨.list items, deadline?⟩ := by simp [Option.filter, Slot.isExpired, hd]
    rw [hl, passed_lrem hd]
    simp

theorem purged_filter (hn : now ≤ later) (slot? : Option Slot) :
    purged later key item (slot?.filter (!·.isExpired now)) = purged later key item slot? := by
  rw [purged, filter_later slot? hn, purged]

theorem purged_later (hn : now ≤ later) :
    purged later key item (store.live? later key) = purged later key item (store.live? now key) := by
  rw [live?_later hn, purged_filter (UInt64.le_refl later)]

-- It makes no difference whether the item was taken out before, or put in.
theorem purged_effect_lrem (slot? : Option Slot) :
    purged later key item (Command.effect now (.lrem key 0 item) slot?) =
      purged later key item slot? := by
  match slot? with
  | none | some ⟨.bytes _, _⟩ => rfl
  | some ⟨.list items, deadline?⟩ =>
    simp only [Command.effect, removed_zero]
    split
    case isTrue he => rw [purged_none, purged_list, if_pos (.inr he)]
    case isFalse => simp [purged_list]

theorem purged_effect_lpush (slot? : Option Slot) :
    purged later key item (Command.effect now (.lpush key item) slot?) =
      purged later key item slot? := by
  match slot? with
  | none => simp [Command.effect, purged_list]
  | some ⟨.bytes _, _⟩ => rfl
  | some ⟨.list items, deadline?⟩ => simp [Command.effect, purged_list]

-- Commands that do no more to a list than take the item out or put it in.
def Shuffles (key item : String) (command : Command) : Prop :=
  command.key = key → command = .lrem key 0 item ∨ command = .lpush key item

theorem purged_serve {commands : List Command} (hn : now ≤ later)
    (hc : ∀ command ∈ commands, Shuffles key item command) :
    purged later key item ((store.serve now commands).live? now key) =
      purged later key item (store.live? now key) := by
  induction commands generalizing store
  case nil => rfl
  case cons command commands hi =>
    have ⟨hs, hc⟩ := List.forall_mem_cons.mp hc
    refine (hi hc).trans ?_
    rw [live?_reply, passed]
    split
    case isFalse => rfl
    case isTrue hk =>
      rw [purged_filter hn]
      obtain rfl | rfl := hs hk
      · exact purged_effect_lrem _
      · exact purged_effect_lpush _

-- Bytes under the key are in the way of it, then as before.
theorem answer_lrem (store : Store) (now : Instant) (key item : String) :
    (store.reply now (.lrem key 0 item)).1.map (fun _ => ()) =
      match purged now key item (store.live? now key) with
      | some ⟨.bytes _, _⟩ => .error (wantsList key)
      | _ => .ok () := by
  change (store.lrem now key 0 item).1.map _ = _
  rw [lrem, find?_settle_self]
  rcases hl : store.live? now key with _ | ⟨data | items, deadline?⟩
  case none => simp [Except.map]
  case some.bytes =>
    have hd : deadline?.any (· ≤ now) = false := (live?_eq_some.mp hl).2
    simp [Except.map, purged_bytes, hd]
  case some.list =>
    rw [purged_list]
    split <;> split <;> simp_all [Except.map]

-- The same slots are live in both, but for what the item may have to do with.
structure AlikeBut (now : Instant) (key item : String) (store other : Store) : Prop where
  others : ∀ name, name ≠ key → store.live? now name = other.live? now name
  own : purged now key item (store.live? now key) = purged now key item (other.live? now key)

namespace AlikeBut

theorem answer_lrem (h : store.AlikeBut now key item other) :
    (store.reply now (.lrem key 0 item)).1.map (fun _ => ()) =
      (other.reply now (.lrem key 0 item)).1.map (fun _ => ()) := by
  rw [Store.answer_lrem, Store.answer_lrem, h.own]

theorem alike_lrem (h : store.AlikeBut now key item other) :
    (store.reply now (.lrem key 0 item)).2.Alike now (other.reply now (.lrem key 0 item)).2 := by
  intro name
  by_cases hk : name = key
  case neg => rw [live?_reply_of_ne _ _ _ hk, live?_reply_of_ne _ _ _ hk, h.others name hk]
  case pos =>
    subst hk
    have ho := h.own
    rw [purged, purged, filter_live?, filter_live?] at ho
    rw [live?_reply, live?_reply, ho]

end AlikeBut

-- What is written under another key, or under the same, is the same in both afterwards.
theorem alikeBut_setex (ttl : UInt64) (data : ByteArray)
    (ho : ∀ name, name ≠ record → name ≠ key → store.live? now name = other.live? now name)
    (hk : key ≠ record → purged now key item (store.live? now key) =
      purged now key item (other.live? now key)) :
    (store.reply now (.setex record ttl data)).2.AlikeBut now key item
      (other.reply now (.setex record ttl data)).2 where
  others name hn := by
    by_cases hr : name = record
    case pos => simp [live?_reply, passed, Command.key, Command.effect, hr]
    case neg => rw [live?_reply_of_ne _ _ _ hr, live?_reply_of_ne _ _ _ hr, ho name hr hn]
  own := by
    by_cases hr : key = record
    case pos => simp [live?_reply, passed, Command.key, Command.effect, hr]
    case neg => rw [live?_reply_of_ne _ _ _ hr, live?_reply_of_ne _ _ _ hr, hk hr]

end Entitlement.Store
