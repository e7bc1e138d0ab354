import Entitlement.Proofs.Session.Carrying
import Entitlement.Proofs.Session.Endless
import Entitlement.Proofs.Session.Enlist
import Entitlement.Proofs.Session.Removal
import Entitlement.Proofs.Session.Report
/-!
What can be read in the cache once a record was written.
-/

namespace Entitlement

variable {now later : Instant} {key : String} {seconds : UInt64}

namespace Store

-- Nothing is left that gets a lifetime which is over at once.
theorem passed_expire_of_over (hd : ¬now < deadline now seconds) (slot? : Option Slot) :
    passed now key slot? (.expire key seconds) = none := by
  have he : deadline now seconds ≤ now := UInt64.not_lt.mp hd
  by_cases hz : seconds = 0
  all_goals cases slot? <;> simp [passed, Command.key, Command.effect, hz, Slot.isExpired, he]

end Store

namespace Session

variable {session : Session} {held : Held} {record : Record} {never : Bool} {refuse : Script.Refusal}
  {sent : List Command} {cache : Store}

-- This is so even if the index is where the record is.
theorem live?_writing_of_over (hd : ¬now < Store.deadline now session.lifetime) :
    (cache.serve now (writing session record false)).live? now (Key.record session.token) = none := by
  by_cases hk : Key.index record.user.id = Key.record session.token
  case pos =>
    rw [Store.live?_serve, writing, List.foldl_append, hk]
    exact Store.passed_expire_of_over hd _
  case neg =>
    have he : Store.deadline now session.lifetime ≤ now := UInt64.not_lt.mp hd
    rw [live?_record_writing hk]
    simp [Store.Slot.isExpired, he]

theorem store_of_written (hs : session.state = .held held)
    (h : (outcome (write never) session refuse now sent cache).value.1 = .ok ()) :
    (outcome (write never) session refuse now sent cache).store.Alike now
      (cache.serve now (writing session held.record never)) := by
  obtain ⟨_, ha⟩ | ⟨_, _, _, _, _, hv, _⟩ := (carries_write hs never).outcome refuse now sent cache
  · exact ha
  · exact nomatch (congrArg Prod.fst hv).symm.trans h

-- A record that was written is in the cache for as long as was asked for.
theorem live?_of_written (hs : session.state = .held held) (hn : now < Instant.last)
    (hz : session.lifetime ≠ 0)
    (h : (outcome (write never) session refuse now sent cache).value.1 = .ok ()) :
    (outcome (write never) session refuse now sent cache).store.live? now
      (Key.record session.token) = some ⟨.bytes held.record.encode,
        if never then none else some (Store.deadline now session.lifetime)⟩ := by
  have hi : (outcome (write never) session .none now sent cache).value.1 = .ok () :=
    composed_write.outcome_of_ok h ▸ h
  have ⟨hk, _⟩ := index_of_written hs hn hz hi
  have hd : ¬Store.deadline now session.lifetime ≤ now :=
    UInt64.not_le.mpr (Store.lt_deadline hn hz)
  rw [store_of_written hs h, live?_record_writing hk]
  cases never <;> simp [Option.filter, Store.Slot.isExpired, hd]

-- Whenever the record is read afterwards, what was written is found until its lifetime is over.
theorem get_of_written (hs : session.state = .held held) (hz : session.lifetime ≠ 0)
    (h : (outcome (write false) session refuse now sent cache).value.1 = .ok ()) (hl : now ≤ later) :
    (outcome (write false) session refuse now sent cache).store.get later
      (Key.record session.token) = .ok (if later < Store.deadline now session.lifetime
        then some held.record.encode else none) := by
  let slot : Store.Slot := ⟨.bytes held.record.encode, some (Store.deadline now session.lifetime)⟩
  have hw : (outcome (write false) session refuse now sent cache).store.live? now
      (Key.record session.token) = (some slot : Option Store.Slot).filter (!·.isExpired now) := by
    by_cases hd : now < Store.deadline now session.lifetime
    case pos =>
      have hn : now < Instant.last := UInt64.lt_of_lt_of_le hd (Instant.le_last _)
      rw [live?_of_written hs hn hz h]
      simp [slot, Option.filter, Store.Slot.isExpired, hd]
    case neg =>
      rw [store_of_written hs h, live?_writing_of_over hd]
      simp [slot, Option.filter, Store.Slot.isExpired, UInt64.not_lt.mp hd]
  rw [Store.get, Store.live?_later hl, hw, Store.filter_later _ hl]
  by_cases hd : later < Store.deadline now session.lifetime
  all_goals simp [slot, Option.filter, Store.Slot.isExpired, hd]

end Session
end Entitlement
