import Entitlement.Proofs.Store.Effect
import Entitlement.Proofs.Store.Script
/-!
A property of the bytes under one key. It holds as long as only such bytes are written there: every
other command leaves a key's bytes alone, takes them away or puts a list in their place.
-/

namespace Entitlement

variable {key : String} {p : ByteArray → Prop}

namespace Store

variable {store : Store} {slot : Slot} {now : Instant}

-- What lies under a key as bytes has the property.
def Guards (key : String) (p : ByteArray → Prop) (store : Store) : Prop :=
  ∀ slot data, store.find? key = some slot → slot.value = .bytes data → p data

namespace Guards

theorem congr {other : Store} (h : store.Guards key p)
    (he : other.find? key = store.find? key) : other.Guards key p :=
  fun slot data hf => h slot data (he ▸ hf)

theorem insert (h : store.Guards key p)
    (hs : key = other → ∀ data, slot.value = .bytes data → p data) :
    (store.insert other slot).Guards key p := by
  intro found data hf hd
  rw [find?_insert] at hf
  split at hf
  case isTrue he =>
    cases hf
    exact hs he data hd
  case isFalse => exact h found data hf hd

theorem insert_list (h : store.Guards key p) (items : List String) (deadline? : Option Instant) :
    (store.insert other ⟨.list items, deadline?⟩).Guards key p :=
  h.insert fun _ _ => nofun

theorem erase (h : store.Guards key p) : (store.erase other).Guards key p := by
  intro found data hf hd
  rw [find?_erase] at hf
  split at hf
  case isTrue => exact nomatch hf
  case isFalse => exact h found data hf hd

theorem settle (h : store.Guards key p) : (store.settle now other).Guards key p := by
  rw [Store.settle]
  split
  · exact h.erase
  · exact h

theorem get (h : store.Guards key p) (hg : store.get now key = .ok (some data)) : p data := by
  have ⟨deadline?, hl⟩ := live?_of_get hg
  exact h _ data (live?_eq_some.mp hl).1 rfl

theorem setex {seconds : UInt64} (h : store.Guards key p) (hd : key = other → p data) :
    (store.setex now other seconds data).Guards key p := by
  apply h.insert
  intro he bytes hb
  cases hb
  exact hd he

-- Whatever lay there before, what was written lies there now.
theorem of_setex {seconds : UInt64} (hd : p data) :
    (store.setex now key seconds data).Guards key p := by
  intro slot bytes hf hb
  rw [Store.setex, find?_insert, if_pos rfl] at hf
  cases hf
  cases hb
  exact hd

theorem expire {seconds : UInt64} (h : store.Guards key p) :
    (store.expire now other seconds).2.Guards key p := by
  rw [Store.expire]
  split
  case h_1 => exact h.settle
  case h_2 slot hf =>
    split
    · exact h.settle.erase
    · exact h.settle.insert fun he data hd => h.settle slot data (he ▸ hf) hd

theorem persist (h : store.Guards key p) : (store.persist now other).2.Guards key p := by
  rw [Store.persist]
  split
  case h_1 value deadline hf =>
    exact h.settle.insert fun he data hd => h.settle ⟨value, some deadline⟩ data (he ▸ hf) hd
  case h_2 => exact h.settle

theorem lpush (h : store.Guards key p) : (store.lpush now other value).2.Guards key p := by
  rw [Store.lpush]
  split
  case h_1 => exact h.settle.insert_list _ _
  case h_2 => exact h.settle.insert_list _ _
  case h_3 => exact h.settle

theorem lrem {count : Int64} (h : store.Guards key p) :
    (store.lrem now other count value).2.Guards key p := by
  rw [Store.lrem]
  split
  case h_1 => exact h.settle
  case h_2 => exact h.settle
  case h_3 =>
    dsimp only
    split
    · exact h.settle.erase
    · exact h.settle.insert_list _ _

end Guards

end Store

-- Only bytes with the property are written under the key, and only such bytes are read there.
def Contract.guarding (key : String) (p : ByteArray → Prop) : Contract where
  sends command := ∀ ttl data, command = .setex key ttl data → p data
  replies
    | .get other, .ok (some data) => other = key → p data
    | _, _ => True

theorem Contract.guarding_upheld : (guarding key p).UpheldBy (Store.Guards key p) where
  refused command error := by
    cases command <;> trivial
  served {store now command} h hs := by
    cases command
    case get other =>
      refine ⟨?_, h⟩
      change (guarding key p).replies (.get other) (store.get now other)
      match hg : store.get now other with
      | .ok (some data) =>
        intro he
        exact h.get (he ▸ hg)
      | .ok none | .error _ => exact trivial
    case setex other ttl data =>
      exact ⟨trivial, h.setex fun he => hs ttl data (he ▸ rfl)⟩
    case expire => exact ⟨trivial, h.expire⟩
    case persist => exact ⟨trivial, h.persist⟩
    case delete => exact ⟨trivial, h.erase⟩
    case lpush => exact ⟨trivial, h.lpush⟩
    case lrem => exact ⟨trivial, h.lrem⟩
    case ttl | lrange | keys => exact ⟨trivial, h⟩

theorem Store.Guards.serve {store : Store} {now : Instant} {commands : List Command}
    (h : store.Guards key p)
    (hc : ∀ ttl data, .setex key ttl data ∈ commands → p data) :
    (store.serve now commands).Guards key p := by
  induction commands generalizing store
  case nil => exact h
  case cons command commands hi =>
    have hs : (Contract.guarding key p).sends command :=
      fun ttl data he => hc ttl data (he ▸ List.mem_cons_self)
    exact hi (Contract.guarding_upheld.served h hs).2 fun ttl data hm => hc ttl data (.tail _ hm)

end Entitlement
