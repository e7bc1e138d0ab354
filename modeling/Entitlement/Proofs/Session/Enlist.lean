import Entitlement.Proofs.Session.Service
/-!
The index of a user and the records that it lists. Each part of an operation gives the record of its
token and the index the same lifetime, so that the token is listed for as long as its record is there.
-/

namespace Entitlement

namespace Store

variable {store : Store} {now later : Instant} {key token user : String}

-- The token is listed in the index of the user for as long as there is something under it.
def Enlists (store : Store) (now : Instant) (token user : String) : Prop :=
  ∀ later, now ≤ later → (store.live? later (Key.record token)).isSome →
    token ∈ store.listed later (Key.index user)

theorem Enlists.mono (h : store.Enlists now token user) (hn : now ≤ later) :
    store.Enlists later token user :=
  fun last hl => h last (UInt64.le_trans hn hl)

theorem enlists_of_none (h : store.live? now (Key.record token) = none) :
    store.Enlists now token user := by
  intro later hn hl
  rw [live?_eq_none_later h hn] at hl
  exact nomatch hl

-- Both last equally long.
theorem enlists_of_live? (h : ∀ slot, store.live? now (Key.record token) = some slot →
    ∃ items, token ∈ items ∧ store.live? now (Key.index user) =
      (some ⟨.list items, slot.deadline?⟩ : Option Slot).filter (!·.isExpired now)) :
    store.Enlists now token user := by
  intro later hn hl
  rw [live?_later hn] at hl
  have ⟨slot, hs⟩ := Option.isSome_iff_exists.mp hl
  have ⟨hr, he⟩ := Option.filter_eq_some_iff.mp hs
  have ⟨items, hm, hi⟩ := h slot hr
  have hf : store.live? later (Key.index user) = some ⟨.list items, slot.deadline?⟩ := by
    have hd : (!slot.isExpired now) = true := (Bool.not_eq_true' _).mpr (live?_eq_some.mp hr).2
    rw [live?_later hn, hi, Option.filter_filter]
    exact Option.filter_eq_some_iff.mpr ⟨rfl, Bool.and_eq_true_iff.mpr ⟨hd, he⟩⟩
  exact listed_of_live? hf ▸ hm

end Store

namespace Session

open Store (Slot deadline)

variable {session : Session} {record : Record} {cache : Store} {now : Instant}
  {token user key : String} {seconds : UInt64}

theorem live?_expiring (hk : Key.index user ≠ Key.record token)
    (hkey : key = Key.record token ∨ key = Key.index user) :
    (cache.serve now (expiring token user seconds)).live? now key =
      if seconds = 0 then none
      else ((cache.live? now key).map fun slot =>
        { slot with deadline? := some (deadline now seconds) }).filter (!·.isExpired now) := by
  rw [Store.live?_serve]
  by_cases hz : seconds = 0
  all_goals obtain rfl | rfl := hkey
  all_goals simp [expiring, Store.passed, Command.key, Command.effect, hk, hk.symm, hz]

theorem live?_persisting (hk : Key.index user ≠ Key.record token)
    (hkey : key = Key.record token ∨ key = Key.index user) :
    (cache.serve now (persisting token user)).live? now key =
      (cache.live? now key).map fun slot => { slot with deadline? := none } := by
  rw [Store.live?_serve]
  cases cache.live? now key
  all_goals obtain rfl | rfl := hkey
  all_goals simp [persisting, Store.passed, Command.key, Command.effect, hk, hk.symm, Option.filter,
    Slot.isExpired]

theorem live?_record_writing (hk : Key.index record.user.id ≠ Key.record session.token)
    (never : Bool) :
    (cache.serve now (writing session record never)).live? now (Key.record session.token) =
      ((some ⟨.bytes record.encode, some (deadline now session.lifetime)⟩ : Option Slot).filter
        (!·.isExpired now)).map fun slot => if never then { slot with deadline? := none } else slot := by
  rw [Store.live?_serve]
  by_cases hd : now < deadline now session.lifetime
  all_goals cases never
  all_goals simp [writing, persisting, Store.passed, Command.key, Command.effect, hk, hd,
    Option.filter, Slot.isExpired]

theorem live?_record_removing (hk : Key.index user ≠ Key.record token) :
    (cache.serve now (removing token user)).live? now (Key.record token) = none := by
  rw [Store.live?_serve]
  simp [removing, Store.passed, Command.key, Command.effect, hk]

end Session

namespace Store

open Session

variable {session : Session} {record : Record} {cache : Store} {now : Instant} {token user : String}

theorem Enlists.expiring (h : cache.Enlists now token user) (hk : Key.index user ≠ Key.record token)
    (seconds : UInt64) : (cache.serve now (expiring token user seconds)).Enlists now token user := by
  refine enlists_of_live? fun slot hs => ?_
  rw [live?_expiring hk (.inl rfl)] at hs
  rw [live?_expiring hk (.inr rfl)]
  split at hs
  case isTrue => exact nomatch hs
  case isFalse hz =>
    have ⟨ho, _⟩ := Option.filter_eq_some_iff.mp hs
    obtain ⟨old, hl, rfl⟩ := Option.map_eq_some_iff.mp ho
    have hm := h now (UInt64.le_refl now) (Option.isSome_of_eq_some hl)
    have ⟨_, he⟩ := live?_of_mem_listed hm
    rw [if_neg hz, he]
    exact ⟨_, hm, rfl⟩

theorem Enlists.persisting (h : cache.Enlists now token user)
    (hk : Key.index user ≠ Key.record token) :
    (cache.serve now (persisting token user)).Enlists now token user := by
  refine enlists_of_live? fun slot hs => ?_
  rw [live?_persisting hk (.inl rfl)] at hs
  obtain ⟨old, hl, rfl⟩ := Option.map_eq_some_iff.mp hs
  have hm := h now (UInt64.le_refl now) (Option.isSome_of_eq_some hl)
  have ⟨_, he⟩ := live?_of_mem_listed hm
  rw [live?_persisting hk (.inr rfl), he]
  exact ⟨_, hm, rfl⟩

-- Whatever was listed before, what was written is listed.
theorem enlists_writing (hz : session.lifetime ≠ 0)
    (hk : Key.index record.user.id ≠ Key.record session.token)
    (hl : cache.Listable now (Key.index record.user.id)) (never : Bool) :
    (cache.serve now (writing session record never)).Enlists now session.token record.user.id := by
  refine enlists_of_live? fun slot hs => ?_
  rw [live?_record_writing hk] at hs
  obtain ⟨old, ho, rfl⟩ := Option.map_eq_some_iff.mp hs
  have ⟨ho, _⟩ := Option.filter_eq_some_iff.mp ho
  cases ho
  rw [live?_index_writing hz hk hl]
  cases never
  all_goals exact ⟨_, List.mem_cons_self, rfl⟩

theorem enlists_removing (hk : Key.index user ≠ Key.record token) :
    (cache.serve now (removing token user)).Enlists now token user :=
  enlists_of_none (live?_record_removing hk)

-- The index keeps what it lists, or it is gone.
theorem listed_expiring (cache : Store) (now : Instant) (hk : Key.index user ≠ Key.record token)
    (seconds : UInt64) :
    (cache.serve now (expiring token user seconds)).listed now (Key.index user) =
      cache.listed now (Key.index user) ∨
      (cache.serve now (expiring token user seconds)).live? now (Key.index user) = none ∧
        (seconds = 0 ∨ ¬now < deadline now seconds) := by
  rw [listed, listed, live?_expiring hk (.inr rfl)]
  by_cases hz : seconds = 0
  case pos => exact .inr ⟨if_pos hz, .inl hz⟩
  case neg =>
    by_cases hd : now < deadline now seconds
    case pos =>
      left
      cases cache.live? now (Key.index user)
      all_goals simp [hz, hd, Option.filter, Slot.isExpired, Slot.items]
    case neg =>
      right
      cases cache.live? now (Key.index user)
      all_goals simp_all [Option.filter, Slot.isExpired]

theorem listed_persisting (hk : Key.index user ≠ Key.record token) :
    (cache.serve now (persisting token user)).listed now (Key.index user) =
      cache.listed now (Key.index user) := by
  rw [listed, listed, live?_persisting hk (.inr rfl)]
  cases cache.live? now (Key.index user) <;> rfl

theorem listed_writing (hz : session.lifetime ≠ 0)
    (hk : Key.index record.user.id ≠ Key.record session.token)
    (hl : cache.Listable now (Key.index record.user.id)) (never : Bool) :
    (cache.serve now (writing session record never)).listed now (Key.index record.user.id) =
      session.token ::
        (cache.listed now (Key.index record.user.id)).filter (· ≠ session.token) ∨
      (cache.serve now (writing session record never)).live? now (Key.index record.user.id) = none ∧
        never = false ∧ ¬now < deadline now session.lifetime := by
  rw [listed, live?_index_writing hz hk hl never]
  by_cases hd : now < deadline now session.lifetime
  all_goals cases never
  all_goals simp [hd, Option.filter, Slot.isExpired, Slot.items]

theorem live?_index_removing (hk : Key.index user ≠ Key.record token) :
    (cache.serve now (removing token user)).live? now (Key.index user) =
      passed now (Key.index user) (cache.live? now (Key.index user))
        (.lrem (Key.index user) 0 token) := by
  rw [live?_serve]
  simp [removing, passed, Command.key, hk.symm]

theorem listed_removing (hk : Key.index user ≠ Key.record token)
    (hl : cache.Listable now (Key.index user)) :
    (cache.serve now (removing token user)).listed now (Key.index user) =
      (cache.listed now (Key.index user)).filter (· ≠ token) := by
  rw [listed, live?_index_removing hk]
  obtain ho | ⟨items, deadline?, ho⟩ := hl.live?
  case inl => simp [listed, ho, passed, Command.key, Command.effect]
  case inr =>
    rw [ho, passed_lrem (live?_eq_some.mp ho).2, listed_of_live? ho]
    split
    case isTrue he => exact he.symm
    case isFalse => rfl

-- What commands do to the record of a token and to the index of its user, and to nothing else. The
-- index keeps what it lists apart from the token, or it comes to an end.
structure Passage (now : Instant) (token user : String) (ends revives : Prop)
    (cache after : Store) : Prop where
  frame : ∀ key, key ≠ Key.record token → key ≠ Key.index user → after.find? key = cache.find? key
  enlists : cache.Enlists now token user → after.Enlists now token user
  listed : (ends ∧ after.live? now (Key.index user) = none) ∨
    (∀ other ∈ after.listed now (Key.index user),
      other = token ∨ other ∈ cache.listed now (Key.index user)) ∧
    ∀ other ∈ cache.listed now (Key.index user), other ≠ token →
      other ∈ after.listed now (Key.index user)
  gone : cache.live? now (Key.index user) = none →
    revives ∨ after.live? now (Key.index user) = none

theorem passage_refl (cache : Store) (now : Instant) (token user : String) :
    Passage now token user False False cache cache where
  frame _ _ _ := rfl
  enlists h := h
  listed := .inr ⟨fun _ => .inr, fun _ h _ => h⟩
  gone := .inr

theorem frame_of_keys {commands : List Command}
    (h : ∀ command ∈ commands, command.key = Key.record token ∨ command.key = Key.index user)
    (hr : key ≠ Key.record token) (hi : key ≠ Key.index user) :
    (cache.serve now commands).find? key = cache.find? key :=
  find?_serve cache now fun command hm he => (h command hm).elim (fun h => hr (he.symm.trans h))
    fun h => hi (he.symm.trans h)

theorem passage_expiring (hk : Key.index user ≠ Key.record token) (seconds : UInt64) :
    Passage now token user (seconds = 0 ∨ ¬now < deadline now seconds) False cache
      (cache.serve now (expiring token user seconds)) where
  frame _ := frame_of_keys (by simp [Session.expiring, Command.key])
  enlists h := h.expiring hk seconds
  listed := by
    obtain hl | hl := listed_expiring cache now hk seconds
    · exact .inr (by simp +contextual [hl])
    · exact .inl hl.symm
  gone h := by
    right
    rw [live?_expiring hk (.inr rfl), h]
    exact ite_self _

theorem passage_persisting (hk : Key.index user ≠ Key.record token) :
    Passage now token user False False cache (cache.serve now (persisting token user)) where
  frame _ := frame_of_keys (by simp [Session.persisting, Command.key])
  enlists h := h.persisting hk
  listed := .inr (by simp +contextual [listed_persisting hk])
  gone h := .inr (by rw [live?_persisting hk (.inr rfl), h]; rfl)

theorem passage_writing (hz : session.lifetime ≠ 0)
    (hk : Key.index record.user.id ≠ Key.record session.token)
    (hl : cache.Listable now (Key.index record.user.id)) (never : Bool) :
    Passage now session.token record.user.id
      (never = false ∧ ¬now < deadline now session.lifetime)
      (never = true ∨ now < deadline now session.lifetime) cache
      (cache.serve now (writing session record never)) where
  frame _ := frame_of_keys (by
    cases never
    all_goals simp [writing, Session.persisting, Command.key])
  enlists _ := enlists_writing hz hk hl never
  listed := by
    obtain he | he := listed_writing hz hk hl never
    · exact .inr (by simp +contextual [he])
    · exact .inl he.symm
  gone _ := by
    rw [live?_index_writing hz hk hl]
    by_cases hd : now < deadline now session.lifetime
    case pos => exact .inl (.inr hd)
    case neg =>
      cases never
      case true => exact .inl (.inl rfl)
      case false => exact .inr (by simp [Option.filter, Slot.isExpired, hd])

theorem passage_removing (hk : Key.index user ≠ Key.record token)
    (hl : cache.Listable now (Key.index user)) :
    Passage now token user False False cache (cache.serve now (removing token user)) where
  frame _ := frame_of_keys (by simp [removing, Command.key])
  enlists _ := enlists_removing hk
  listed := .inr (by simp +contextual [listed_removing hk hl])
  gone h := .inr (by simp [live?_index_removing hk, h, passed, Command.key, Command.effect])

end Store
end Entitlement
