import Entitlement.Proofs.Session.Course
import Entitlement.Proofs.Session.Key
import Entitlement.Proofs.Store.Listing
/-!
The parts of operations when no command is refused: which commands each of them sends, one after
another, and what it leaves in memory.
-/

namespace Entitlement

namespace Session

-- The commands of each part, given its session and the record in memory.
def expiring (token user : String) (seconds : UInt64) : List Command :=
  [.expire (Key.record token) seconds, .expire (Key.index user) seconds]

def persisting (token user : String) : List Command :=
  [.persist (Key.record token), .persist (Key.index user)]

def refreshing (session : Session) (user : String) (never : Bool) : List Command :=
  if never then persisting session.token user else expiring session.token user session.lifetime

-- What loading sends once it has found a record.
def arriving (session : Session) (user : String) : List Command :=
  if session.refreshOnLoad then expiring session.token user session.lifetime else []

def writing (session : Session) (record : Record) (never : Bool) : List Command :=
  [.setex (Key.record session.token) session.lifetime record.encode,
    .lrem (Key.index record.user.id) 0 session.token,
    .lpush (Key.index record.user.id) session.token] ++
  if never then persisting session.token record.user.id
  else [.expire (Key.index record.user.id) session.lifetime]

def removing (token user : String) : List Command :=
  [.delete (Key.record token), .lrem (Key.index user) 0 token]

end Session

def Part.commands (session : Session) (record : Record) : Part → List Command
  | load => []
  | write never => session.writing record never
  | expire seconds => Session.expiring session.token record.user.id seconds
  | refresh never => session.refreshing record.user.id never
  | remove => Session.removing session.token record.user.id

-- How a part leaves the session that it began with a record in memory.
def Part.leaves (held : Held) : Part → Session.State
  | write _ => .held { held with modified := false }
  | remove => .removed
  | _ => .held held

namespace Session

variable {session : Session} {held : Held} {now : Instant} {cache : Store} {sent : List Command}

-- A record that is written is listed first in the index, and only once.
theorem live?_index_writing {record : Record} (hz : session.lifetime ≠ 0)
    (hk : Key.index record.user.id ≠ Key.record session.token)
    (hl : cache.Listable now (Key.index record.user.id)) (never : Bool) :
    (cache.serve now (writing session record never)).live? now (Key.index record.user.id) =
      (some ⟨.list (session.token ::
        (cache.listed now (Key.index record.user.id)).filter (· ≠ session.token)),
          if never then none else some (Store.deadline now session.lifetime)⟩ :
        Option Store.Slot).filter (!·.isExpired now) := by
  have ⟨deadline?, he⟩ := hl.enlist session.token
  have hs : Store.passed now (Key.index record.user.id)
      (cache.live? now (Key.index record.user.id))
      (.setex (Key.record session.token) session.lifetime record.encode) =
        cache.live? now (Key.index record.user.id) := if_neg hk.symm
  rw [Store.live?_serve, writing, List.foldl_append, List.foldl_cons, hs, he]
  cases never
  all_goals simp [persisting, Store.passed, Command.key, Command.effect, hk.symm, hz]

theorem outcome_send (command : Command) :
    outcome (send command) session .none now sent cache =
      ⟨((cache.reply now command).1.mapError (.store command.name), session),
        (cache.reply now command).2, sent ++ [command]⟩ := by
  rw [outcome]
  change Script.run .none now (.send command _) sent cache = _
  rw [Script.run]
  simp only [Script.Refusal.none]
  cases (cache.reply now command).1 <;> rfl

theorem outcome_send_bind {reply : command.Reply} {f : command.Reply → Action α}
    (h : (cache.reply now command).1 = .ok reply) :
    outcome (send command >>= f) session .none now sent cache =
      outcome (f reply) session .none now (sent ++ [command]) (cache.reply now command).2 := by
  rw [outcome_bind, outcome_send, h]
  rfl

theorem outcome_expireBoth (user : String) (seconds : UInt64) :
    outcome (expireBoth user seconds) session .none now sent cache =
      ⟨(.ok (), session), cache.serve now (expiring session.token user seconds),
        sent ++ expiring session.token user seconds⟩ := by
  have hs : sent ++ expiring session.token user seconds =
      sent ++ [.expire (Key.record session.token) seconds] ++
        [.expire (Key.index user) seconds] := by simp [expiring]
  rw [hs]
  rfl

theorem outcome_persistBoth (user : String) :
    outcome (persistBoth user) session .none now sent cache =
      ⟨(.ok (), session), cache.serve now (persisting session.token user),
        sent ++ persisting session.token user⟩ := by
  have hs : sent ++ persisting session.token user =
      sent ++ [.persist (Key.record session.token)] ++ [.persist (Key.index user)] := by
    simp [persisting]
  rw [hs]
  rfl

theorem outcome_refreshFor (user : String) (never : Bool) :
    outcome (refreshFor user never) session .none now sent cache =
      ⟨(.ok (), session), cache.serve now (refreshing session user never),
        sent ++ refreshing session user never⟩ := by
  cases never
  case false => exact outcome_expireBoth user session.lifetime
  case true => exact outcome_persistBoth user

theorem outcome_held_bind {f : Held → Action α} (hs : session.state = .held held) :
    outcome (Session.held >>= f) session .none now sent cache =
      outcome (f held) session .none now sent cache := by
  rw [outcome, perform_bind, perform_held hs, pure_bind]
  rfl

theorem outcome_setState (state : State) :
    outcome (setState state) session .none now sent cache =
      ⟨(.ok (), { session with state }), cache, sent⟩ :=
  rfl

theorem outcome_get_bind {f : Session → Action α} :
    outcome (get >>= f) session .none now sent cache =
      outcome (f session) session .none now sent cache :=
  rfl

-- The index can be brought up to date, since it is not where the record was written.
theorem outcome_write (hs : session.state = .held held)
    (hk : Key.index held.record.user.id ≠ Key.record session.token)
    (hl : cache.Listable now (Key.index held.record.user.id)) (never : Bool) :
    outcome (write never) session .none now sent cache =
      ⟨(.ok (), { session with state := .held { held with modified := false } }),
        cache.serve now (writing session held.record never),
        sent ++ writing session held.record never⟩ := by
  have hw : (cache.reply now (.setex (Key.record session.token) session.lifetime
      held.record.encode)).2.Listable now (Key.index held.record.user.id) :=
    hl.reply fun ttl data he => hk (congrArg Command.key he).symm
  have hn : (Store.reply _ now (.lrem (Key.index held.record.user.id) 0 session.token)).2.Listable
      now (Key.index held.record.user.id) := hw.reply nofun
  have ⟨_, hr⟩ := hw.lrem 0 session.token
  have ⟨_, hp⟩ := hn.lpush session.token
  rw [write, outcome_held_bind hs, outcome_get_bind, outcome_send_bind rfl, outcome_send_bind hr,
    outcome_send_bind hp]
  cases never
  case false =>
    rw [if_neg nofun, outcome_send_bind rfl, outcome_setState]
    simp [writing, Store.serve]
  case true =>
    rw [if_pos rfl, outcome_bind, outcome_persistBoth]
    simp [outcome_setState, writing, persisting, Store.serve]

theorem outcome_user (hs : session.state = .held held) :
    outcome user session .none now sent cache =
      ⟨(.ok held.record.user.id, session), cache, sent⟩ := by
  rw [user, outcome_held_bind hs]
  rfl

theorem outcome_setLifetime (hs : session.state = .held held) (seconds : UInt64) :
    outcome (setLifetime seconds) session .none now sent cache =
      ⟨(.ok (), session), cache.serve now (expiring session.token held.record.user.id seconds),
        sent ++ expiring session.token held.record.user.id seconds⟩ := by
  rw [setLifetime, outcome_bind, outcome_user hs]
  exact outcome_expireBoth ..

theorem outcome_refresh (hs : session.state = .held held) (never : Bool) :
    outcome (refresh never) session .none now sent cache =
      ⟨(.ok (), session), cache.serve now (refreshing session held.record.user.id never),
        sent ++ refreshing session held.record.user.id never⟩ := by
  rw [refresh, outcome_bind, outcome_user hs]
  exact outcome_refreshFor ..

theorem outcome_remove (hs : session.state = .held held)
    (hl : cache.Listable now (Key.index held.record.user.id)) :
    outcome remove session .none now sent cache =
      ⟨(.ok (), { session with state := .removed }),
        cache.serve now (removing session.token held.record.user.id),
        sent ++ removing session.token held.record.user.id⟩ := by
  have hd : (cache.reply now (.delete (Key.record session.token))).2.Listable now
      (Key.index held.record.user.id) := hl.reply nofun
  have ⟨_, hr⟩ := hd.lrem 0 session.token
  rw [remove, outcome_bind, outcome_user hs]
  dsimp only
  rw [outcome_get_bind, outcome_send_bind rfl, outcome_send_bind hr, List.append_assoc]
  rfl

-- Loading either comes to nothing or finds a record, whose lifetime it may refresh.
inductive Loaded (session : Session) (now : Instant) (cache : Store) (sent : List Command) :
    Script.Outcome (Except AccessError Unit × Session) → Prop
  | failed {error last} (h : sent ⊆ last) :
    Loaded session now cache sent ⟨(.error error, session), cache, last⟩
  | found {data record} (hg : cache.get now (Key.record session.token) = .ok (some data))
    (hd : Record.decode? data = some record) : Loaded session now cache sent
      ⟨(.ok (), { session with state := .held (.of record false) }),
        cache.serve now (arriving session record.user.id),
        sent ++ .get (Key.record session.token) :: arriving session record.user.id⟩

-- What a session finds under its token.
def found (session : Session) (now : Instant) (cache : Store) : Except AccessError Record :=
  match cache.get now (Key.record session.token) with
  | .error cause => .error (.store "get" cause)
  | .ok none => .error (.unknownIdentity session.token)
  | .ok (some data) =>
    match Record.decode? data with
    | none => .error (.malformedIdentity session.token malformed)
    | some record => .ok record

-- What the reply to a lookup comes to.
def told (token : String) : Except StoreError (Option ByteArray) → Except AccessError Record
  | .error cause => .error (.store "get" cause)
  | .ok none => .error (.unknownIdentity token)
  | .ok (some bytes) =>
    match Record.decode? bytes with
    | none => .error (.malformedIdentity token malformed)
    | some record => .ok record

theorem perform_fetch (token : String) (session : Session) : perform (fetch token) session =
    .send (.get (Key.record token)) fun reply => .done (told token reply, session) := by
  refine congrArg (Script.send _) (funext fun reply => ?_)
  rcases reply with cause | _ | bytes
  case error | ok.none => rfl
  case ok.some =>
    change perform (match Record.decode? bytes with
      | none => throw (.malformedIdentity token malformed)
      | some record => pure record) session = _
    rw [told]
    cases Record.decode? bytes <;> rfl

theorem found_eq (session : Session) (now : Instant) (cache : Store) :
    session.found now cache = told session.token (cache.get now (Key.record session.token)) := by
  rw [found]
  rcases cache.get now (Key.record session.token) with cause | _ | data <;> rfl

theorem outcome_fetch : outcome (fetch session.token) session .none now sent cache =
    ⟨(session.found now cache, session), cache, sent ++ [.get (Key.record session.token)]⟩ := by
  rw [outcome, perform_fetch, found_eq]
  rfl

theorem found_eq_ok {record : Record} (h : session.found now cache = .ok record) : ∃ data,
    cache.get now (Key.record session.token) = .ok (some data) ∧
      Record.decode? data = some record := by
  rw [found] at h
  split at h
  case h_3 data hg =>
    split at h
    case h_1 => exact nomatch h
    case h_2 hd =>
      cases h
      exact ⟨data, hg, hd⟩
  all_goals exact nomatch h

theorem outcome_ensureNotRemoved (session : Session) (now : Instant) (cache : Store)
    (sent : List Command) : ∃ answer, outcome ensureNotRemoved session .none now sent cache =
      ⟨(answer, session), cache, sent⟩ := by
  cases hs : session.state
  all_goals
    cases session
    cases hs
    exact ⟨_, rfl⟩

theorem idle_remaining (session : Session) (now : Instant) (cache : Store)
    (sent : List Command) : ∃ answer last, sent ⊆ last ∧
      outcome remaining session .none now sent cache = ⟨(answer, session), cache, last⟩ := by
  have ⟨answer, he⟩ := outcome_ensureNotRemoved session now cache sent
  rw [remaining, outcome_bind, he]
  cases answer
  case error error => exact ⟨_, sent, List.Subset.refl _, rfl⟩
  case ok =>
    dsimp only
    rw [outcome_get_bind, outcome_send]
    exact ⟨_, _, List.subset_append_left .., rfl⟩

-- What a session comes to that loads, unless it was removed.
theorem outcome_load (hs : session.state ≠ .removed) :
    outcome load session .none now sent cache =
      match session.found now cache with
      | .error error => ⟨(.error error, session), cache, sent ++ [.get (Key.record session.token)]⟩
      | .ok record => ⟨(.ok (), { session with state := .held (.of record false) }),
        cache.serve now (arriving session record.user.id),
        sent ++ .get (Key.record session.token) :: arriving session record.user.id⟩ := by
  have he : outcome ensureNotRemoved session .none now sent cache =
      ⟨(.ok (), session), cache, sent⟩ := by
    obtain ⟨_, _, _, _ | _ | _⟩ := session
    case unloaded | held => rfl
    case removed => exact absurd rfl hs
  rw [load, outcome_bind, he]
  dsimp only
  rw [outcome_get_bind, outcome_bind, outcome_fetch]
  cases session.found now cache
  case error => rfl
  case ok record =>
    dsimp only
    rw [outcome_bind, outcome_setState, arriving]
    dsimp only
    cases session.refreshOnLoad
    case false => rfl
    case true =>
      rw [if_pos rfl, if_pos rfl, outcome_refreshFor, List.append_assoc]
      rfl

theorem loaded (session : Session) (now : Instant) (cache : Store) (sent : List Command) :
    session.Loaded now cache sent (outcome load session .none now sent cache) := by
  by_cases hs : session.state = .removed
  case pos =>
    cases session
    cases hs
    exact .failed (List.Subset.refl _)
  case neg =>
    rw [outcome_load hs]
    cases hf : session.found now cache
    case error => exact .failed (List.subset_append_left ..)
    case ok record =>
      have ⟨data, hg, hd⟩ := found_eq_ok hf
      exact .found hg hd

end Session

-- What a step comes to when no command is refused: nothing happens to the cache, or a record is
-- loaded, or a part sends all its commands.
inductive Stage.Served (uses : Part → Prop) (now : Instant) (stage : Stage) : Stage → Prop
  | idle {session sent} (hs : session = stage.session ∨ ∃ held next, held.Recalled next ∧
      stage.session.state = .held held ∧ session = { stage.session with state := .held next })
    (h : stage.sent ⊆ sent) : Served uses now stage ⟨session, stage.cache, sent⟩
  | loaded {data record} (hu : uses .load)
    (hg : stage.cache.get now (Key.record stage.session.token) = .ok (some data))
    (hd : Record.decode? data = some record) : Served uses now stage
      ⟨{ stage.session with state := .held (.of record false) },
        stage.cache.serve now (stage.session.arriving record.user.id),
        stage.sent ++ .get (Key.record stage.session.token) ::
          stage.session.arriving record.user.id⟩
  | finished {held part} (hu : uses part) (hp : part ≠ .load)
    (hs : stage.session.state = .held held) : Served uses now stage
      ⟨{ stage.session with state := part.leaves held },
        stage.cache.serve now (part.commands stage.session held.record),
        stage.sent ++ part.commands stage.session held.record⟩

namespace Stage

-- The index for the record in memory is there to be written, and not where the record is.
def Servable (now : Instant) (stage : Stage) : Prop :=
  ∀ held, stage.session.state = .held held →
    Key.index held.record.user.id ≠ Key.record stage.session.token ∧
      stage.cache.Listable now (Key.index held.record.user.id)

variable {uses : Part → Prop} {now : Instant} {stage next last : Stage} {held : Held} {part : Part}

theorem after_finish (hp : part ≠ .load) (hs : stage.session.state = .held held)
    (hk : Key.index held.record.user.id ≠ Key.record stage.session.token)
    (hl : stage.cache.Listable now (Key.index held.record.user.id)) :
    stage.after part.action .none now = ⟨{ stage.session with state := part.leaves held },
        stage.cache.serve now (part.commands stage.session held.record),
        stage.sent ++ part.commands stage.session held.record⟩ := by
  have stay : stage.session = { stage.session with state := .held held } := by rw [← hs]
  cases part
  case load => exact absurd rfl hp
  case write never =>
    rw [after, Part.action, Session.outcome_write hs hk hl]
    rfl
  case expire seconds =>
    rw [after, Part.action, Session.outcome_setLifetime hs,
      show Part.leaves held (.expire seconds) = .held held from rfl, ← stay]
    rfl
  case refresh never =>
    rw [after, Part.action, Session.outcome_refresh hs,
      show Part.leaves held (.refresh never) = .held held from rfl, ← stay]
    rfl
  case remove =>
    rw [after, Part.action, Session.outcome_remove hs hl]
    rfl

theorem served_load (hu : uses .load) :
    Served uses now stage (stage.after Session.load .none now) := by
  have hl := Session.loaded stage.session now stage.cache stage.sent
  rw [after]
  generalize Session.outcome Session.load stage.session .none now stage.sent stage.cache = outcome
    at hl
  cases hl
  case failed h => exact .idle (.inl rfl) h
  case found hg hd => exact .loaded hu hg hd

theorem Step.served (h : Step uses .none now stage next) (hk : stage.Servable now) :
    Served uses now stage next := by
  cases h
  case remember held next hs hr =>
    exact .idle (.inr ⟨held, next, hr, hs, rfl⟩) (List.Subset.refl _)
  case ask =>
    have ⟨answer, last, hl, ho⟩ :=
      Session.idle_remaining stage.session now stage.cache stage.sent
    rw [after, ho]
    exact .idle (.inl rfl) hl
  case load hu => exact served_load hu
  case finish held part hu hs =>
    by_cases hp : part = .load
    case pos => exact hp ▸ served_load (hp ▸ hu)
    case neg =>
      obtain ⟨hi, hl⟩ := hk held hs
      exact after_finish hp hs hi hl ▸ .finished hu hp hs

-- What makes every step come to that, and is kept by it, is kept by all of them.
theorem Steps.preserve {p : Stage → Prop} (h : stage.Steps uses .none now last) (hp : p stage)
    (hk : ∀ {stage}, p stage → stage.Servable now)
    (hs : ∀ {stage next}, p stage → Served uses now stage next → p next) : p last := by
  induction h
  case refl => exact hp
  case tail hstep hi => exact hs hi (hstep.served (hk hi))

end Stage
end Entitlement
