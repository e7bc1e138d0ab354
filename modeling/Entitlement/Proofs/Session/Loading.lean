import Entitlement.Proofs.Session.Carrying
import Entitlement.Proofs.Session.Report
/-!
Loading a record. As long as none is found, nothing in memory changes. A record that is found takes
the place of what was there before its lifetime is refreshed, and stays there if that fails.
-/

namespace Entitlement

variable {session next : Session} {exchanges : List Exchange} {token : String} {record : Record}

namespace Session

-- A session that has just read a record.
def read (session : Session) (record : Record) : Session :=
  { session with state := .held (.of record false) }

theorem told_eq_ok {reply : Except StoreError (Command.get key).Reply} :
    told token reply = .ok record ↔ Exchange.found? ⟨.get key, reply⟩ = some record := by
  rcases reply with cause | _ | bytes
  case error | ok.none => exact ⟨nofun, nofun⟩
  case ok.some =>
    rw [told, Exchange.found?]
    cases Record.decode? bytes <;> simp

-- A lookup fails because the cache does, or for what is in the cache.
theorem of_told_error {reply : Except StoreError (Option ByteArray)} {error : AccessError}
    (h : told token reply = .error error) :
    (∃ cause, error = .store "get" cause) ∨ error = .unknownIdentity token ∨
      error = .malformedIdentity token malformed := by
  rcases reply with cause | _ | bytes
  case error => exact .inl ⟨cause, (Except.error.inj h).symm⟩
  case ok.none => exact .inr (.inl (Except.error.inj h).symm)
  case ok.some =>
    rw [told] at h
    split at h
    case h_1 => exact .inr (.inr (Except.error.inj h).symm)
    case h_2 => cases h

-- Looking it up is never reported as a failure to refresh its lifetime.
theorem told_ne_expire (token : String) (reply : Except StoreError (Option ByteArray))
    (cause : StoreError) : told token reply ≠ .error (.store "expire" cause) := by
  intro h
  obtain ⟨_, he⟩ | he | he := of_told_error h
  all_goals simp at he

theorem perform_ensureNotRemoved (hs : session.state ≠ .removed) :
    perform ensureNotRemoved session = pure (.ok (), session) := by
  obtain ⟨_, _, _, _ | _ | _⟩ := session
  case unloaded | held => rfl
  case removed => exact absurd rfl hs

theorem perform_load (hs : session.state ≠ .removed) : perform load session =
    .send (.get (Key.record session.token)) fun reply =>
      match told session.token reply with
      | .error error => .done (.error error, session)
      | .ok record =>
        perform (if session.refreshOnLoad then refreshFor record.user.id false else pure ())
          (session.read record) := by
  rw [load, perform_bind, perform_ensureNotRemoved hs, pure_bind]
  change perform (fetch session.token >>= _) session = _
  rw [perform_bind, perform_fetch]
  refine congrArg (Script.send _) (funext fun reply => ?_)
  dsimp only [Script.bind]
  cases told session.token reply
  case error => rfl
  case ok => rfl

-- A record is found, and the lifetime of the index that lists it cannot be refreshed.
theorem hears_load_refused {reply : Except StoreError (Option ByteArray)}
    (hs : session.state ≠ .removed) (hf : session.refreshOnLoad = true)
    (hr : told session.token reply = .ok record) (cause : StoreError) :
    (perform load session).Hears [⟨.get (Key.record session.token), reply⟩,
      ⟨.expire (Key.record session.token) session.lifetime, .ok true⟩,
      ⟨.expire (Key.index record.user.id) session.lifetime, .error cause⟩]
        (.error (.store "expire" cause), session.read record) := by
  rw [perform_load hs]
  refine .send _ ?_
  simp only [hr, if_pos hf]
  exact .send _ (.send _ .done)

-- What is heard when a record is loaded.
inductive Loads (session : Session) : List Exchange → Except AccessError Unit × Session → Prop
  | rejected (hs : session.state = .removed) :
    Loads session [] (.error (.removed session.token), session)
  | missed {reply : Except StoreError (Option ByteArray)} {error : AccessError}
    (hr : told session.token reply = .error error) :
    Loads session [⟨.get (Key.record session.token), reply⟩] (.error error, session)
  | found {reply : Except StoreError (Option ByteArray)} {record : Record}
    {exchanges : List Exchange} {result : Except AccessError Unit × Session}
    (hr : told session.token reply = .ok record)
    (hc : Carried (session.read record) (session.arriving record.user.id) (session.read record)
      exchanges result) :
    Loads session (⟨.get (Key.record session.token), reply⟩ :: exchanges) result

theorem loads {result : Except AccessError Unit × Session}
    (h : (perform load session).Hears exchanges result) : session.Loads exchanges result := by
  by_cases hs : session.state = .removed
  case pos =>
    obtain ⟨_, _, _, _⟩ := session
    cases hs
    cases h
    exact .rejected rfl
  case neg =>
    rw [perform_load hs] at h
    obtain _ | ⟨reply, h⟩ := h
    cases hr : told session.token reply
    all_goals simp only [hr] at h
    case error error =>
      cases h
      exact .missed hr
    case ok record =>
      refine .found hr ?_
      by_cases hf : session.refreshOnLoad = true
      case pos =>
        rw [if_pos hf] at h
        rw [arriving, if_pos hf]
        exact (session.read record).carries_refreshFor record.user.id false _ _ h
      case neg =>
        rw [if_neg hf] at h
        rw [arriving, if_neg hf]
        exact Carries.pure _ _ h

theorem of_mem_arriving {command : Command} {user : String} (h : command ∈ session.arriving user) :
    session.refreshOnLoad ∧ command.name = "expire" := by
  rw [arriving] at h
  split at h
  case isTrue hr =>
    rw [expiring, List.mem_pair] at h
    obtain rfl | rfl := h
    all_goals exact ⟨hr, rfl⟩
  case isFalse => exact absurd h List.not_mem_nil

-- Loading that fails leaves in memory what was there before, unless a record was read and it is the
-- refresh of its lifetime that fails: then this record is in memory, and nothing else is. No expire
-- is sent before that, and one that is refused is what the answer tells of.
theorem session_of_load_failed {result : Except AccessError Unit}
    (h : (perform load session).Hears exchanges (result, next)) :
    (∀ error, result = .error error →
      (next = session ∧ ∀ cause, error ≠ .store "expire" cause) ∨
      ∃ reply record cause, session.refreshOnLoad ∧ error = .store "expire" cause ∧
        ⟨.get (Key.record session.token), reply⟩ ∈ exchanges ∧
          told session.token reply = .ok record ∧ next = session.read record) ∧
    ∀ key seconds answer, ⟨.expire key seconds, answer⟩ ∈ exchanges →
      session.refreshOnLoad ∧ (∀ cause, answer = .error cause →
        result = .error (.store "expire" cause)) ∧
      ∃ reply record rest, exchanges = ⟨.get (Key.record session.token), reply⟩ :: rest ∧
        ⟨.expire key seconds, answer⟩ ∈ rest ∧ told session.token reply = .ok record ∧
          next = session.read record := by
  have hl : session.Loads exchanges (result, next) := loads h
  constructor
  case left =>
    rintro error rfl
    cases hl
    case rejected => exact .inl ⟨rfl, nofun⟩
    case missed reply hr =>
      refine .inl ⟨rfl, fun cause he => ?_⟩
      exact told_ne_expire session.token reply cause (he ▸ hr)
    case found reply record _ hr hc =>
      cases hc
      case broken command _ cause _ hc =>
        have ⟨hf, hn⟩ := of_mem_arriving (hc ▸ List.mem_append_right _ (.head _))
        rw [hn]
        exact .inr ⟨reply, record, cause, hf, rfl, .head _, hr, rfl⟩
  case right =>
    intro key seconds answer hm
    have ha (cause : StoreError) (he : answer = .error cause) :
        result = .error (.store "expire" cause) := by
      have hx : ⟨.expire key seconds, .error cause⟩ ∈ exchanges := he ▸ hm
      exact (composed_load.reports session _ _ h).answer_eq hx Bool.false_ne_true
    cases hl
    case rejected => cases hm
    case missed => cases List.mem_singleton.mp hm
    case found reply record rest hr hc =>
      have hm : ⟨.expire key seconds, answer⟩ ∈ rest := by
        obtain he | hm := List.mem_cons.mp hm
        case inl => cases he
        case inr => exact hm
      have hf : session.refreshOnLoad := (of_mem_arriving (hc.mem_commands _ hm)).1
      exact ⟨hf, ha, reply, record, rest, rfl, hm, hr, hc.session_eq⟩

-- The record was changed and is read again, and the lifetime of the index cannot be refreshed.
theorem session_of_refresh_failed :
    let record : Record := .create "u" []
    let session : Session := ⟨"t", 3600, true, .held (.of record true)⟩
    let next := session.read record
    let cause : StoreError := .unavailable "away"
    let exchanges : List Exchange := [⟨.get (Key.record "t"), .ok (some record.encode)⟩,
      ⟨.expire (Key.record "t") 3600, .ok true⟩, ⟨.expire (Key.index "u") 3600, .error cause⟩]
    let result : Except AccessError Unit := .error (.store "expire" cause)
    session.isModified ∧ (perform load session).Hears exchanges (result, next) ∧
      (∀ error, result = .error error →
        (next = session ∧ ∀ cause, error ≠ .store "expire" cause) ∨
        ∃ reply record cause, session.refreshOnLoad ∧ error = .store "expire" cause ∧
          ⟨.get (Key.record session.token), reply⟩ ∈ exchanges ∧
            told session.token reply = .ok record ∧ next = session.read record) ∧
      ∀ key seconds answer, ⟨.expire key seconds, answer⟩ ∈ exchanges →
        session.refreshOnLoad ∧ (∀ cause, answer = .error cause →
          result = .error (.store "expire" cause)) ∧
        ∃ reply record rest, exchanges = ⟨.get (Key.record session.token), reply⟩ :: rest ∧
          ⟨.expire key seconds, answer⟩ ∈ rest ∧ told session.token reply = .ok record ∧
            next = session.read record := by
  intro record session next cause exchanges result
  have hf : Exchange.found? ⟨.get (Key.record "t"), .ok (some record.encode)⟩ = some record :=
    Record.Bare.decode?_encode ⟨rfl, rfl⟩
  have ht : told "t" (.ok (some record.encode)) = .ok record := told_eq_ok.mpr hf
  have hs : session.state ≠ .removed := nofun
  have h : (perform load session).Hears exchanges (result, next) :=
    hears_load_refused hs rfl ht cause
  exact ⟨rfl, h, session_of_load_failed h⟩

-- The record was changed and is read again, but its lifetime cannot be refreshed: the change is
-- lost.
theorem changed_of_refresh_failed :
    let record : Record := .create "u" []
    let session : Session := ⟨"t", 3600, true, .held (.of record true)⟩
    let refuse := Fault.refusal [⟨"expire", none, .unavailable "away"⟩]
    let cache : Store := .ofList [(Key.record "t", ⟨.bytes record.encode, none⟩)]
    let result := (outcome load session refuse 1000 [] cache).value
    session.isModified ∧ result.1 = .error (.store "expire" (.unavailable "away")) ∧
      result.2.isModified = false ∧ result.2 ≠ session := by
  intro record session refuse cache result
  have hm : result.2.isModified = false := by decide +kernel
  refine ⟨rfl, ?_, hm, fun he => ?_⟩
  · decide +kernel
  · rw [he] at hm
    exact nomatch hm

end Session
end Entitlement
