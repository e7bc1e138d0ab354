import Entitlement.Proofs.Session.History
import Entitlement.Proofs.Session.Loading
import Entitlement.Proofs.Session.Writing
/-!
What it means for a record that its session was saved. A record that is written, or whose lifetime
is refreshed while it is still in the cache, has its whole lifetime before it. A record that has gone
is not brought back by a refresh, and the session is not told.
-/

namespace Entitlement

open Store (Slot deadline secondsUntil)

variable {session : Session} {held : Held} {never : Bool} {refuse : Script.Refusal} {now : Instant}
  {sent : List Command} {cache : Store} {user : String}

-- As long as the end of time is not reached.
theorem Store.secondsUntil_deadline {seconds : UInt64}
    (h : now.toNat + 1000 * seconds.toNat < UInt64.size) :
    secondsUntil now (deadline now seconds) = seconds := by
  have hs : (now.toNat + 1000 * seconds.toNat - now.toNat + 999) / 1000 = seconds.toNat := by omega
  rw [secondsUntil, toNat_deadline_of_lt h, hs, UInt64.ofNat_toNat]

namespace Session

-- What a record is given when it is saved.
def due? (session : Session) (now : Instant) (never : Bool) : Option Instant :=
  if never then none else some (deadline now session.lifetime)

-- This is so even if the index is where the record is.
theorem live?_refreshing (cache : Store) (hz : session.lifetime ≠ 0) (hn : now < Instant.last)
    (user : String) (never : Bool) :
    (cache.serve now (session.refreshing user never)).live? now (Key.record session.token) =
      (cache.live? now (Key.record session.token)).map
        ({ · with deadline? := session.due? now never }) := by
  have hd : ¬deadline now session.lifetime ≤ now := UInt64.not_le.mpr (Store.lt_deadline hn hz)
  rw [Store.live?_serve]
  by_cases hk : Key.index user = Key.record session.token
  all_goals
    cases cache.live? now (Key.record session.token)
    all_goals
      cases never
      all_goals simp [refreshing, expiring, persisting, due?, Store.passed, Command.key,
        Command.effect, Option.filter, Slot.isExpired, hk, hz, hd]

theorem perform_save (hs : session.state = .held held) (never : Bool) :
    perform (save never) session =
      perform (if held.modified then write never else refresh never) session := by
  rw [save, perform_bind, perform_held hs, pure_bind]

-- A record that was changed is written.
theorem live?_of_saved_modified (hs : session.state = .held held) (hm : held.modified = true)
    (hz : session.lifetime ≠ 0) (hn : now < Instant.last)
    (h : (outcome (save never) session refuse now sent cache).value.1 = .ok ()) :
    (outcome (save never) session refuse now sent cache).store.live? now
      (Key.record session.token) = some ⟨.bytes held.record.encode, session.due? now never⟩ := by
  have hw : perform (save never) session = perform (write never) session := by
    rw [perform_save hs, if_pos hm]
  rw [outcome, hw, ← outcome] at h ⊢
  exact live?_of_written hs hn hz h

-- Otherwise it is only given a new lifetime, and whether it was there is not asked.
theorem outcome_save_unmodified (hs : session.state = .held held) (hm : held.modified = false)
    (never : Bool) : outcome (save never) session .none now sent cache =
      ⟨(.ok (), session), cache.serve now (session.refreshing held.record.user.id never),
        sent ++ session.refreshing held.record.user.id never⟩ := by
  have hr : perform (save never) session = perform (refresh never) session := by
    rw [perform_save hs, if_neg (Bool.eq_false_iff.mp hm)]
  rw [outcome, hr, ← outcome, outcome_refresh hs]

theorem live?_of_saved_unmodified (hs : session.state = .held held) (hm : held.modified = false)
    (hz : session.lifetime ≠ 0) (hn : now < Instant.last) :
    (outcome (save never) session .none now sent cache).store.live? now
      (Key.record session.token) = (cache.live? now (Key.record session.token)).map
        ({ · with deadline? := session.due? now never }) := by
  rw [outcome_save_unmodified hs hm]
  exact live?_refreshing cache hz hn held.record.user.id never

-- A record that has to be loaded first was there to be found.
theorem live?_of_saved_unloaded (hs : session.state = .unloaded) (hz : session.lifetime ≠ 0)
    (hn : now < Instant.last)
    (h : (outcome (save never) session .none now sent cache).value.1 = .ok ()) :
    ∃ slot, cache.live? now (Key.record session.token) = some slot ∧
      (outcome (save never) session .none now sent cache).store.live? now
        (Key.record session.token) = some { slot with deadline? := session.due? now never } := by
  have hb : Begins (save never) := .held
  have hu : session.state ≠ .removed := hs ▸ nofun
  rw [hb.outcome_of_unloaded hs, outcome_load hu] at h ⊢
  cases hf : session.found now cache
  case error =>
    rw [hf] at h
    cases h
  case ok record =>
    obtain ⟨data, hg, _⟩ := found_eq_ok hf
    obtain ⟨deadline?, hl⟩ := Store.live?_of_get hg
    have ha : ∃ other, (cache.serve now (session.arriving record.user.id)).live? now
        (Key.record session.token) = some ⟨.bytes data, other⟩ := by
      rw [arriving]
      split
      case isTrue =>
        have hr := live?_refreshing cache hz hn record.user.id false
        exact ⟨_, hr.trans (by rw [hl]; rfl)⟩
      case isFalse => exact ⟨deadline?, hl⟩
    obtain ⟨other, ha⟩ := ha
    refine ⟨_, hl, ?_⟩
    have hr : (session.read record).state = .held (.of record false) := rfl
    refine (live?_of_saved_unmodified hr rfl hz hn).trans ?_
    exact (congrArg _ ha).trans rfl

-- What is under its key after a session was saved.
theorem live?_of_saved (hz : session.lifetime ≠ 0) (hn : now < Instant.last)
    (h : (outcome (save never) session refuse now sent cache).value.1 = .ok ()) :
    let key := Key.record session.token
    let store := (outcome (save never) session refuse now sent cache).store
    let due? := session.due? now never
    (session.isModified ∧ ∃ value, store.live? now key = some ⟨value, due?⟩) ∨
    (¬session.isModified ∧
      store.live? now key = (cache.live? now key).map ({ · with deadline? := due? }) ∧
        (cache.live? now key = none → ∃ held, session.state = .held held)) := by
  have ho := composed_save.outcome_of_ok h
  rw [ho] at h ⊢
  intro key store due?
  cases hs : session.state
  case removed =>
    have hb : Begins (save never) := .held
    rw [hb.outcome_of_removed hs] at h
    cases h
  case unloaded =>
    obtain ⟨slot, hl, hd⟩ := live?_of_saved_unloaded hs hz hn h
    refine .inr ⟨by simp [isModified, hs], hd.trans (by rw [hl]; rfl), fun hc => ?_⟩
    rw [hl] at hc
    cases hc
  case held held =>
    have hf : session.isModified = held.modified := isModified_of_held hs
    cases hm : held.modified
    case true => exact .inl ⟨hf.trans hm, _, live?_of_saved_modified hs hm hz hn h⟩
    case false =>
      exact .inr ⟨Bool.eq_false_iff.mp (hf.trans hm), live?_of_saved_unmodified hs hm hz hn,
        fun _ => ⟨held, rfl⟩⟩

theorem ttl_of_due {store : Store} {value : Store.Value}
    (hb : now.toNat + 1000 * session.lifetime.toNat < UInt64.size)
    (h : store.live? now key = some ⟨value, session.due? now never⟩) :
    store.ttl now key = if never then .permanent else .seconds session.lifetime := by
  rw [Store.ttl, h]
  cases never
  case false => exact congrArg Store.Lifetime.seconds (Store.secondsUntil_deadline hb)
  case true => rfl

-- After a save that has succeeded the record is in the cache with all of its lifetime, if it was
-- changed before, or if it was in the cache until then. Otherwise it was in memory only, and it is
-- not in the cache afterwards either: nothing but a refused command makes such a save fail.
theorem alive_of_saved {acts : List Act} (hr : session.Reached acts) (never : Bool)
    (refuse : Script.Refusal) (now : Instant) (sent : List Command) (cache : Store)
    (hb : now.toNat + 1000 * session.lifetime.toNat < UInt64.size) :
    let saved := outcome (save never) session refuse now sent cache
    let key := Key.record session.token
    (saved.value.1 = .ok () →
      (session.isModified ∨ (cache.live? now key).isSome → (saved.store.live? now key).isSome ∧
        saved.store.ttl now key = if never then .permanent else .seconds session.lifetime) ∧
      (¬session.isModified → cache.live? now key = none →
        (∃ held, session.state = .held held) ∧ saved.store.live? now key = none)) ∧
    ∀ held, session.state = .held held → ¬session.isModified →
      (outcome (save never) session .none now sent cache).value.1 = .ok () := by
  have hz : session.lifetime ≠ 0 := hr.lifetime_ne_zero
  have hn : now < Instant.last := by
    have hs : session.lifetime.toNat ≠ 0 := fun hs => hz (UInt64.toNat_inj.mp hs)
    refine UInt64.lt_iff_toNat_lt.mpr ?_
    change now.toNat < UInt64.size - 1
    omega
  intro saved key
  have alive {value : Store.Value}
      (hl : saved.store.live? now key = some ⟨value, session.due? now never⟩) :
      (saved.store.live? now key).isSome ∧
        saved.store.ttl now key = if never then .permanent else .seconds session.lifetime :=
    ⟨Option.isSome_of_eq_some hl, ttl_of_due hb hl⟩
  constructor
  case left =>
    intro h
    obtain ⟨hm, value, hl⟩ | ⟨hm, hl, hh⟩ := live?_of_saved hz hn h
    case inl => exact ⟨fun _ => alive hl, fun hf => absurd hm hf⟩
    case inr =>
      refine ⟨fun hc => ?_, fun _ hc => ⟨hh hc, hl.trans (by rw [hc]; rfl)⟩⟩
      obtain ⟨slot, hs⟩ := Option.isSome_iff_exists.mp (hc.resolve_left hm)
      exact alive (hl.trans (by rw [hs]; rfl))
  case right =>
    intro held hs hm
    rw [isModified_of_held hs] at hm
    rw [outcome_save_unmodified hs (Bool.eq_false_iff.mpr hm)]

-- A record was changed in memory when it had gone from the cache, and is written again.
theorem alive_of_changed :
    let held : Held := .of { Record.create "u" [] with uid := "t" } false
    let changed : Held := withActive held (Blob.encode (compacted [])) (compacted [])
    let session : Session := ⟨"t", 10, true, .held changed⟩
    let saved := outcome (save false) session .none 5000 [] .empty
    session.Reached [⟨.activate [], [], .ok ()⟩] ∧ saved.value.1 = .ok () ∧
      (saved.store.live? 5000 (Key.record "t")).isSome ∧
        saved.store.ttl 5000 (Key.record "t") = .seconds 10 := by
  intro held changed session saved
  let config : Config := { connected := true, settings := { lifetime := 10 } }
  have hb : Begun ⟨"t", 10, true, .held held⟩ :=
    begun_of_stored config rfl nofun "t" (.create "u" [])
  have hr : session.Reached [⟨.activate [], [], .ok ()⟩] := .acted (.begun hb) .done
  have hv : saved.value.1 = .ok () := by decide +kernel
  exact ⟨hr, hv, ((alive_of_saved hr false .none 5000 [] .empty (by decide)).1 hv).1 (.inl rfl)⟩

-- One session saves what another one has removed: nothing is in the cache afterwards.
theorem missing_of_saved :
    let config : Config := { connected := true, settings := { lifetime := 10 } }
    let world := World.run "t" ⟨.empty, []⟩ [⟨.establish "u" [] config, .none, 1000⟩,
      ⟨.start config, .none, 2000⟩, ⟨.operate 1 .remove, .none, 3000⟩]
    let saved := world.sessions[0]?.map fun session =>
      outcome (save false) session .none 4000 [] world.cache
    saved.map (·.value.1) = some (.ok ()) ∧
      saved.map (·.store.ttl 4000 (Key.record "t")) = some .missing := by
  decide +kernel

end Session
end Entitlement
