import Entitlement.Proofs.Session.Service
import Entitlement.Proofs.Store.Exchange
/-!
Actions whose commands are known when they begin. The commands are sent one after another up to the
first one that fails. Then the answer tells of it, and in memory everything is as before.
-/

namespace Entitlement

variable {session next last : Session} {held : Held} {commands more : List Command}
  {exchanges first : List Exchange} {result : Except AccessError Unit × Session}

inductive Carried (session : Session) (commands : List Command) (last : Session) :
    List Exchange → Except AccessError Unit × Session → Prop
  | whole {exchanges : List Exchange} (hs : ∀ exchange ∈ exchanges, exchange.isServed)
    (hc : exchanges.map Exchange.command = commands) :
    Carried session commands last exchanges (.ok (), last)
  | broken {before : List Exchange} {command : Command} {rest : List Command} {cause : StoreError}
    (hs : ∀ exchange ∈ before, exchange.isServed)
    (hc : before.map Exchange.command ++ command :: rest = commands) :
    Carried session commands last (before ++ [⟨command, .error cause⟩])
      (.error (.store command.name cause), session)

namespace Carried

theorem fail {command : Command} {cause : StoreError} :
    Carried session (command :: commands) last [⟨command, .error cause⟩]
      (.error (.store command.name cause), session) :=
  .broken (List.forall_mem_nil _) rfl

theorem pass {command : Command} {reply : command.Reply}
    (h : Carried session commands last exchanges result) :
    Carried session (command :: commands) last (⟨command, .ok reply⟩ :: exchanges) result := by
  cases h
  case whole hs hc =>
    exact .whole (List.forall_mem_cons.mpr ⟨rfl, hs⟩) (congrArg (command :: ·) hc)
  case broken hs hc =>
    exact .broken (List.forall_mem_cons.mpr ⟨rfl, hs⟩) (congrArg (command :: ·) hc)

theorem append (hs : ∀ exchange ∈ first, exchange.isServed)
    (h : Carried session more last exchanges result) :
    Carried session (first.map Exchange.command ++ more) last (first ++ exchanges) result := by
  induction first
  case nil => exact h
  case cons exchange first hi =>
    have ⟨hf, ho⟩ := List.forall_mem_cons.mp hs
    obtain ⟨command, cause | reply⟩ := exchange
    case error => exact nomatch hf
    case ok => exact (hi ho).pass

theorem mem_commands (h : Carried session commands last exchanges result) :
    ∀ exchange ∈ exchanges, exchange.command ∈ commands := by
  intro exchange he
  cases h
  case whole hc => exact hc ▸ List.mem_map_of_mem he
  case broken before _ _ _ _ hc =>
    rw [← hc]
    obtain he | he := List.mem_append.mp he
    · exact List.mem_append_left _ (List.mem_map_of_mem he)
    · cases List.mem_singleton.mp he
      exact List.mem_append_right _ (.head _)

theorem session_of_error {error : AccessError}
    (h : Carried session commands last exchanges (.error error, next)) : next = session := by
  cases h
  rfl

theorem session_eq (h : Carried session commands session exchanges result) :
    result.2 = session := by
  cases h
  all_goals rfl

-- The first command is sent in any case.
theorem head {command : Command} (h : Carried session (command :: commands) last exchanges result) :
    ∃ exchange ∈ exchanges, exchange.command = command := by
  cases h
  case whole hc =>
    obtain ⟨exchange, rest, rfl, he, _⟩ := List.map_eq_cons_iff.mp hc
    exact ⟨exchange, .head _, he⟩
  case broken before other rest cause _ hc =>
    obtain _ | ⟨exchange, before⟩ := before
    case nil => exact ⟨_, .head _, (List.cons_eq_cons.mp hc).1⟩
    case cons => exact ⟨exchange, .head _, (List.cons_eq_cons.mp hc).1⟩

end Carried

-- Whatever the replies are, an action carries out a list of commands.
def Carries (action : Action Unit) (session : Session) (commands : List Command)
    (last : Session) : Prop :=
  ∀ exchanges result, (Session.perform action session).Hears exchanges result →
    Carried session commands last exchanges result

namespace Carries

theorem pure : Carries (pure ()) session [] session := by
  rintro _ _ (_ | _)
  exact .whole (List.forall_mem_nil _) rfl

theorem setState {state : Session.State} :
    Carries (Session.setState state) session [] { session with state } := by
  rintro _ _ (_ | _)
  exact .whole (List.forall_mem_nil _) rfl

theorem get_bind {f : Session → Action Unit} (h : Carries (f session) session commands last) :
    Carries (get >>= f) session commands last :=
  h

theorem held_bind {f : Held → Action Unit} (hs : session.state = .held held)
    (h : Carries (f held) session commands last) :
    Carries (Session.held >>= f) session commands last := by
  intro exchanges result hh
  rw [Session.perform_bind, Session.perform_held hs, pure_bind] at hh
  exact h exchanges result hh

theorem send_bind {command : Command} {f : command.Reply → Action Unit}
    (h : ∀ reply, Carries (f reply) session commands last) :
    Carries (Session.send command >>= f) session (command :: commands) last := by
  intro exchanges result hh
  change (Script.send command _).Hears exchanges result at hh
  obtain _ | ⟨cause | reply, hh⟩ := hh
  case error =>
    cases hh
    exact .fail
  case ok => exact (h reply _ result hh).pass

theorem bind {action : Action Unit} {f : Unit → Action Unit}
    (h : Carries action session commands session) (hf : Carries (f ()) session more last) :
    Carries (action >>= f) session (commands ++ more) last := by
  intro exchanges result hh
  rw [Session.perform_bind, Script.hears_bind] at hh
  obtain ⟨⟨answer, next⟩, first, rest, rfl, ha, hn⟩ := hh
  cases h first _ ha
  case whole hs hc => exact hc ▸ Carried.append hs (hf rest result hn)
  case broken before command left _ hs hc =>
    obtain ⟨rfl, rfl⟩ := Script.hears_pure.mp hn
    have he : before.map Exchange.command ++ command :: (left ++ more) = commands ++ more := by
      rw [← hc, List.append_assoc]
      rfl
    rw [List.append_nil]
    exact .broken hs he

-- In a cache either all of the commands were served, or those before one that failed.
theorem outcome {action : Action Unit} (h : Carries action session commands last)
    (refuse : Script.Refusal) (now : Instant) (sent : List Command) (cache : Store) :
    let outcome := Session.outcome action session refuse now sent cache
    (outcome.value = (.ok (), last) ∧ outcome.store.Alike now (cache.serve now commands)) ∨
    ∃ served command rest cause, commands = served ++ command :: rest ∧
      outcome.value = (.error (.store command.name cause), session) ∧
        outcome.store.Alike now (cache.serve now served) := by
  intro outcome
  let script := Session.perform action session
  have hh := h _ _ (script.hears_heard refuse now sent cache)
  have ha : outcome.store.Alike _ _ := script.alike_run refuse now sent cache
  change Carried _ _ _ _ outcome.value at hh
  generalize outcome = outcome at *
  generalize script.heard refuse now sent cache = exchanges at *
  obtain ⟨value, store, sent⟩ := outcome
  cases hh
  case whole hs hc =>
    rw [List.filter_eq_self.mpr hs, hc] at ha
    exact .inl ⟨rfl, ha⟩
  case broken served command rest cause hs hc =>
    rw [List.filter_append, List.filter_eq_self.mpr hs, List.filter_cons_of_neg Bool.false_ne_true,
      List.filter_nil, List.append_nil] at ha
    exact .inr ⟨_, command, rest, cause, hc.symm, rfl, ha⟩

end Carries

namespace Session

theorem carries_expireBoth (session : Session) (user : String) (seconds : UInt64) :
    Carries (expireBoth user seconds) session (expiring session.token user seconds) session :=
  .get_bind (.send_bind fun _ => .send_bind fun _ => .pure)

theorem carries_persistBoth (session : Session) (user : String) :
    Carries (persistBoth user) session (persisting session.token user) session :=
  .get_bind (.send_bind fun _ => .send_bind fun _ => .pure)

theorem carries_refreshFor (session : Session) (user : String) (never : Bool) :
    Carries (refreshFor user never) session (session.refreshing user never) session := by
  refine .get_bind ?_
  cases never
  case false => exact session.carries_expireBoth user session.lifetime
  case true => exact session.carries_persistBoth user

theorem carries_refresh (hs : session.state = .held held) (never : Bool) :
    Carries (refresh never) session (session.refreshing held.record.user.id never) session := by
  rw [refresh, user, bind_assoc]
  exact .held_bind hs (session.carries_refreshFor held.record.user.id never)

theorem carries_write (hs : session.state = .held held) (never : Bool) :
    Carries (write never) session (session.writing held.record never)
      { session with state := .held { held with modified := false } } := by
  refine .held_bind hs (.get_bind ?_)
  refine .send_bind fun _ => .send_bind fun _ => .send_bind fun _ => ?_
  cases never
  case false => exact .send_bind fun _ => .setState
  case true =>
    let state : State := .held { held with modified := false }
    have hp : Carries (do persistBoth held.record.user.id; setState state) session
        (persisting session.token held.record.user.id ++ []) { session with state } :=
      .bind (session.carries_persistBoth held.record.user.id) .setState
    exact hp

-- The end of the removal of a record, when its user is known.
theorem carries_removing (session : Session) (user : String) :
    Carries (do
      let session ← get
      let _ ← send (.delete (Key.record session.token))
      let _ ← send (.lrem (Key.index user) 0 session.token)
      setState .removed) session (removing session.token user) { session with state := .removed } :=
  .get_bind (.send_bind fun _ => .send_bind fun _ => .setState)

-- What saving sends: everything if the record was changed, or else what makes it last.
def saving (session : Session) (held : Held) (never : Bool) : List Command :=
  if held.modified then session.writing held.record never
  else session.refreshing held.record.user.id never

theorem carries_save (hs : session.state = .held held) (never : Bool) :
    Carries (save never) session (session.saving held never)
      { session with state := .held { held with modified := false } } := by
  refine .held_bind hs ?_
  rw [saving]
  cases hm : held.modified
  case false =>
    have he : { session with state := .held { held with modified := false } } = session := by
      rw [← hm, ← hs]
    exact he ▸ carries_refresh hs never
  case true => exact carries_write hs never

end Session
end Entitlement
