import Entitlement.Proofs.Session.Ownership
import Entitlement.Proofs.Session.Uncached
/-!
Sessions together with their past: all that a session was asked for since it began, what was said to
the cache meanwhile, and how it answered. Any replies may have come from the cache.
-/

namespace Entitlement

variable {session next : Session} {exchanges : List Exchange}

structure Act where
  operation : Operation
  exchanges : List Exchange
  answer : Except AccessError operation.Answer

namespace Session

-- A session that began in one of the three ways, and did all this since then.
inductive Reached : List Act → Session → Prop
  | begun {session : Session} (h : session.Begun) : Reached [] session
  | acted {acts : List Act} {session next : Session} {operation : Operation}
    {exchanges : List Exchange} {answer : Except AccessError operation.Answer}
    (h : Reached acts session)
    (ha : (perform operation.ask session).Hears exchanges (answer, next)) :
    Reached (acts ++ [⟨operation, exchanges, answer⟩]) next

-- Nothing but what is in memory changes.
def Retains (action : Action α) : Prop :=
  ∀ session exchanges result, (perform action session).Hears exchanges result →
    ∃ state, result.2 = { session with state }

namespace Retains

theorem pure {value : α} : Retains (pure value : Action α) := by
  rintro session _ _ (_ | _)
  exact ⟨session.state, rfl⟩

theorem throw {error : AccessError} : Retains (throw error : Action α) := by
  rintro session _ _ (_ | _)
  exact ⟨session.state, rfl⟩

theorem get : Retains get := by
  rintro session _ _ (_ | _)
  exact ⟨session.state, rfl⟩

theorem setState {state : State} : Retains (setState state) := by
  rintro session _ _ (_ | _)
  exact ⟨state, rfl⟩

theorem send {command : Command} : Retains (send command) := by
  intro session exchanges result h
  change (Script.send command _).Hears exchanges result at h
  obtain _ | ⟨cause | reply, _ | _⟩ := h
  all_goals exact ⟨session.state, rfl⟩

theorem bind {action : Action α} {f : α → Action β} (ha : Retains action)
    (hf : ∀ value, Retains (f value)) : Retains (action >>= f) := by
  intro session exchanges result hh
  obtain ⟨_, _, rfl, h⟩ | ⟨value, next, first, more, _, h, hn⟩ := hears_bind_cases hh
  · exact ha session exchanges _ h
  · obtain ⟨state, rfl⟩ := ha session first _ h
    exact hf value { session with state } more result hn

end Retains

theorem retains_of_composed {action : Action α} (h : Composed action) : Retains action := by
  induction h
  case pure => exact .pure
  case throw => exact .throw
  case get => exact .get
  case setState => exact .setState
  case send => exact .send
  case exchange hf => exact .bind .send fun _ => .bind .send hf
  case bind ha hf => exact .bind ha hf

theorem Begun.lifetime_ne_zero (h : session.Begun) : session.lifetime ≠ 0 := by
  have created {token : String} {config : Config} {session : Session}
      (h : create token config = .ok session) : session.lifetime ≠ 0 := by
    cases hc : config.connected
    case false => exact nomatch (create_of_not_connected hc).symm.trans h
    case true =>
      cases (create_of_connected hc).symm.trans h
      exact config.lifetime_ne_zero
  have launched {action : Action Unit} {begun session : Session} {exchanges : List Exchange}
      (ha : Composed action) (h : (perform action begun).Hears exchanges (.ok (), session))
      (hb : begun.lifetime ≠ 0) : session.lifetime ≠ 0 := by
    obtain ⟨_, he⟩ := retains_of_composed ha begun _ _ h
    cases he
    exact hb
  cases h
  case created h => exact created h
  case started h =>
    have ⟨begun, hb, hl⟩ := hears_launch h
    exact launched composed_load hl (created hb)
  case established token _ config _ h =>
    have ⟨begun, hb, hw⟩ := hears_launch h
    cases hc : create token config
    case error => exact nomatch hc ▸ hb
    case ok fresh =>
      rw [hc] at hb
      cases hb
      have hz : fresh.lifetime ≠ 0 := created hc
      exact launched composed_write hw hz

-- A record was put into the cache, and no command has failed.
theorem begun_of_stored (config : Config) (hc : config.connected)
    (hn : ¬config.settings.neverExpires) (token : String) (record : Record) :
    Begun ⟨token, config.lifetime, config.settings.refreshOnLoad,
      .held (.of { record with uid := token } false)⟩ := by
  let written : Record := (Held.of { record with uid := token } true).record
  let session : Session := ⟨token, config.lifetime, config.settings.refreshOnLoad,
    .held (.of { record with uid := token } false)⟩
  have he : (establish token record config).Hears [
      ⟨.setex (Key.record token) config.lifetime written.encode, .ok ()⟩,
      ⟨.lrem (Key.index record.user.id) 0 token, .ok 0⟩,
      ⟨.lpush (Key.index record.user.id) token, .ok 1⟩,
      ⟨.expire (Key.index record.user.id) config.lifetime, .ok true⟩] (.ok session) := by
    rw [establish, create_of_connected hc, Bool.eq_false_iff.mpr hn]
    exact .send _ (.send _ (.send _ (.send _ .done)))
  exact .established he

namespace Reached

variable {acts : List Act}

theorem current (h : session.Reached acts) : session.Current := by
  induction h
  case begun h => exact h.current
  case acted operation _ _ _ ha hi =>
    have ⟨_, _, hr⟩ := (operation.tracks hi).hears ha
    exact hr.current

theorem lifetime_ne_zero (h : session.Reached acts) : session.lifetime ≠ 0 := by
  induction h
  case begun h => exact h.lifetime_ne_zero
  case acted operation _ _ _ ha hi =>
    obtain ⟨_, he⟩ := retains_of_composed operation.composed _ _ _ ha
    cases he
    exact hi

end Reached
end Session

namespace World

variable {token : String} {world : World}

def Traced (world : World) : Prop :=
  ∀ session ∈ world.sessions, ∃ acts, session.Reached acts

theorem Traced.join {script : Script (Except AccessError Session)} (h : world.Traced)
    (hb : ∀ exchanges session, script.Hears exchanges (.ok session) → session.Begun)
    (event : Event) :
    (world.join (script.run event.refuse event.now [] world.cache)).Traced := by
  intro session hm
  cases List.mem_append.mp hm
  case inl hm => exact h session hm
  case inr hm =>
    have hh := script.hears_heard event.refuse event.now [] world.cache
    rw [mem_toList hm] at hh
    exact ⟨[], .begun (hb _ session hh)⟩

-- All sessions of a token, whoever works on them, have such a past.
theorem Traced.step (h : world.Traced) (event : Event) : (world.step token event).Traced := by
  obtain ⟨move, refuse, now⟩ := event
  cases move
  case create config =>
    intro session hm
    cases List.mem_append.mp hm
    case inl hm => exact h session hm
    case inr hm => exact ⟨[], .begun (.created (mem_toList hm))⟩
  case start config => exact h.join (fun _ _ hh => .started hh) _
  case establish user grants config => exact h.join (fun _ _ hh => .established hh) _
  case lookup => exact h
  case operate index operation =>
    rw [World.step]
    dsimp only
    split
    case h_1 => exact h
    case h_2 session hs =>
      intro next hm
      cases List.mem_or_eq_of_mem_set hm
      case inl hm => exact h next hm
      case inr he =>
        obtain ⟨acts, hr⟩ := h session (List.mem_of_getElem? hs)
        have hh := (Session.perform operation.action session).hears_heard refuse now [] world.cache
        rw [operation.action_eq, Session.perform_bind, Script.hears_bind] at hh
        obtain ⟨⟨answer, last⟩, _, _, _, ha, hn⟩ := hh
        have hl : next = last := by
          rw [he, Session.outcome, operation.action_eq, Session.perform_bind]
          cases answer
          all_goals exact congrArg Prod.snd (Script.hears_pure.mp hn).2
        exact hl ▸ ⟨_, hr.acted ha⟩

theorem Traced.turns (h : world.Traced) (turns : List Turn) :
    (world.turns token turns).Traced := by
  induction turns generalizing world
  case nil => exact h
  case cons turn turns hi =>
    cases turn
    case event event => exact hi (h.step event)
    case command command now => exact hi h

end World
end Entitlement
