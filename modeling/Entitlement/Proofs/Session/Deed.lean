import Entitlement.Proofs.Session.Course
/-!
Whatever is done with identities, of any tokens and with any records, by any number of sessions over
one cache. Each deed is the work of one session, and takes the course of its operations.
-/

namespace Entitlement

inductive Deed where
  | create (token : String) (config : Config)
  | start (token : String) (config : Config)
  | establish (token : String) (record : Record) (config : Config)
  | lookup (token : String) (refresh : Bool)
  | operate (index : Nat) (operation : Operation)

def Move.deed (token : String) : Move → Deed
  | create config => .create token config
  | start config => .start token config
  | establish user grants config => .establish token (.create user grants) config
  | lookup refresh => .lookup token refresh
  | operate index operation => .operate index operation

-- A session that has done nothing yet.
def Session.fresh (token : String) (config : Config) : Session :=
  ⟨token, config.lifetime, config.settings.refreshOnLoad, .unloaded⟩

-- The session that looks at an identity.
def Session.visitor (token : String) (refresh : Bool) : Session :=
  .fresh token { connected := true, settings := { refreshOnLoad := refresh } }

namespace World

variable (world : World) (deed : Deed) (refuse : Script.Refusal) (now : Instant)

-- The sessions that there are after a deed, and what became of the cache.
def outcome : Script.Outcome (List Session) :=
  match deed with
  | .create token config =>
    ⟨world.sessions ++ (Session.create token config).toOption.toList, world.cache, []⟩
  | .start token config =>
    let outcome := (Session.start token config).run refuse now [] world.cache
    ⟨world.sessions ++ outcome.value.toOption.toList, outcome.store, outcome.sent⟩
  | .establish token record config =>
    let outcome := (Session.establish token record config).run refuse now [] world.cache
    ⟨world.sessions ++ outcome.value.toOption.toList, outcome.store, outcome.sent⟩
  | .lookup token refresh =>
    let outcome := (Directory.lookup token refresh).run refuse now [] world.cache
    ⟨world.sessions, outcome.store, outcome.sent⟩
  | .operate index operation =>
    match world.sessions[index]? with
    | none => ⟨world.sessions, world.cache, []⟩
    | some session =>
      let outcome := Session.outcome operation.action session refuse now [] world.cache
      ⟨world.sessions.set index outcome.value.2, outcome.store, outcome.sent⟩

def after : World :=
  let outcome := world.outcome deed refuse now
  ⟨outcome.store, outcome.value⟩

theorem step_eq_after (world : World) (event : Event) :
    world.step token event = world.after (event.move.deed token) event.refuse event.now := by
  have ⟨move, refuse, now⟩ := event
  cases move
  case operate index operation =>
    simp only [step, after, outcome, Move.deed]
    cases world.sessions[index]? <;> rfl
  all_goals rfl

-- The session by which a deed is done, before it begins.
inductive Worker : Deed → Session → Prop
  | start {token config} : Worker (.start token config) (.fresh token config)
  | establish {token record config} : Worker (.establish token record config)
    { Session.fresh token config with state := .held (.of { record with uid := token } true) }
  | lookup {token refresh} : Worker (.lookup token refresh) (.visitor token refresh)
  | operate {index operation session} (h : world.sessions[index]? = some session) :
    Worker (.operate index operation) session

end World

-- The parts of the work that a session does for a deed.
inductive Deed.Uses (worker : Session) : Deed → Part → Prop
  | start {token config} : Uses worker (.start token config) .load
  | establish {token record config} :
    Uses worker (.establish token record config) (.write config.settings.neverExpires)
  | lookup {token refresh} : Uses worker (.lookup token refresh) .load
  | begin {index operation} (h : operation ≠ .remaining) (hs : worker.state = .unloaded) :
    Uses worker (.operate index operation) .load
  | operate {index operation part} (h : operation.Uses worker.isModified part) :
    Uses worker (.operate index operation) part

-- A deed without effect: nobody was there to do it, or nobody had to do anything.
structure World.Idle (world : World) (deed : Deed) (outcome : Script.Outcome (List Session)) :
    Prop where
  store : outcome.store = world.cache
  sessions : ∀ session ∈ outcome.value,
    session ∈ world.sessions ∨ ∃ token config, deed = .create token config ∧
      session = .fresh token config

-- A deed that a session did, and how the session stood in the end.
structure World.Done (world : World) (deed : Deed) (refuse : Script.Refusal) (now : Instant)
    (worker last : Session) (outcome : Script.Outcome (List Session)) : Prop where
  begins : world.Worker deed worker
  steps : Stage.Steps (deed.Uses worker) refuse now ⟨worker, world.cache, []⟩
    ⟨last, outcome.store, outcome.sent⟩
  sessions : ∀ session ∈ outcome.value, session ∈ world.sessions ∨ session = last

namespace Session

variable {token : String} {config : Config} {record : Record} {refuse : Script.Refusal}
  {now : Instant} {cache : Store}

theorem run_launch (action : Action Unit) (session : Session) :
    (launch action (.ok session)).run refuse now [] cache =
      let outcome := outcome action session refuse now [] cache
      ⟨outcome.value.1.map fun _ => outcome.value.2, outcome.store, outcome.sent⟩ := by
  rw [launch, Script.run_bind]
  rfl

theorem start_of_connected (h : config.connected = true) :
    start token config = launch load (.ok (fresh token config)) := by
  rw [start, create_of_connected h]
  rfl

theorem run_lookup (token : String) (refresh : Bool) :
    (Directory.lookup token refresh).run refuse now [] cache =
      let outcome := outcome Directory.lookup.entry (visitor token refresh) refuse now [] cache
      ⟨outcome.value.1, outcome.store, outcome.sent⟩ := by
  rw [Directory.lookup, create_of_connected rfl]
  exact Script.run_bind ..

theorem establish_of_connected (h : config.connected = true) :
    establish token record config = launch (write config.settings.neverExpires)
      (.ok { fresh token config with state := .held (.of { record with uid := token } true) }) := by
  rw [establish, create_of_connected h]
  rfl

-- Who has put a record into the cache has written it.
theorem written_of_established
    (h : ((establish token record config).run refuse now [] cache).value = .ok session) :
    config.connected = true ∧ (outcome (write config.settings.neverExpires)
      { fresh token config with state := .held (.of { record with uid := token } true) } refuse now
        [] cache).value = (.ok (), session) := by
  have hc := (deposited_of_established h).connected
  rw [establish_of_connected hc, run_launch] at h
  refine ⟨hc, ?_⟩
  generalize outcome (write config.settings.neverExpires) _ refuse now [] cache = outcome at h
  obtain ⟨⟨answer, last⟩, _, _⟩ := outcome
  cases answer
  case error => exact nomatch h
  case ok =>
    cases h
    rfl

theorem start_of_not_connected (h : config.connected = false) :
    start token config = pure (.error .noStore) := by
  rw [start, create_of_not_connected h]
  rfl

theorem establish_of_not_connected (h : config.connected = false) :
    establish token record config = pure (.error .noStore) := by
  rw [establish, create_of_not_connected h]
  rfl

end Session

namespace World

variable {world : World} {deed : Deed} {refuse : Script.Refusal} {now : Instant}

theorem mem_append_launched {sessions : List Session} {answer : Except AccessError Unit}
    (h : session ∈ sessions ++ (answer.map fun _ => last).toOption.toList) :
    session ∈ sessions ∨ session = last := by
  refine (List.mem_append.mp h).imp_right fun hm => ?_
  cases answer
  case error => exact nomatch hm
  case ok => exact List.mem_singleton.mp hm

-- Looking at an identity is mostly loading it.
theorem steps_lookup {stage : Stage} (hu : uses .load) :
    stage.Steps uses refuse now (stage.after Directory.lookup.entry refuse now) := by
  have shown {stage : Stage} {held : Held} (remaining : Store.Lifetime)
      (hs : stage.session.state = .held held) : stage.Steps uses refuse now
        (stage.after (do return Directory.Entry.mk (← Session.intoRecord) remaining) refuse now) :=
    Stage.steps_of_recalls (.bind .intoRecord fun _ => .pure) hs
  refine Stage.steps_bind (.single (.load hu)) fun _ ha => ?_
  have ⟨held, hh, _⟩ := Session.holding_of_load refuse now stage.sent stage.cache ha
  refine Stage.steps_recalls_bind .get (fun session stage held hs => ?_) hh
  dsimp only
  split
  · exact Stage.steps_recalls_bind .pure (fun _ _ _ hs => shown _ hs) hs
  · refine Stage.steps_bind (.single .ask) fun _ _ => ?_
    exact shown _ ((congrArg Session.state (Session.outcome_remaining ..)).trans hs)

theorem course (world : World) (deed : Deed) (refuse : Script.Refusal) (now : Instant) :
    world.Idle deed (world.outcome deed refuse now) ∨
      ∃ worker last, world.Done deed refuse now worker last (world.outcome deed refuse now) := by
  have idle (deed : Deed) : world.Idle deed ⟨world.sessions, world.cache, []⟩ :=
    ⟨rfl, fun _ hm => .inl hm⟩
  cases deed
  case create token config =>
    left
    refine ⟨rfl, fun session hm => (List.mem_append.mp hm).imp_right fun hm => ?_⟩
    have hc : Session.create token config = .ok session := mem_toList hm
    refine ⟨token, config, rfl, ?_⟩
    cases hn : config.connected
    case false => exact nomatch (Session.create_of_not_connected hn).symm.trans hc
    case true => exact (Except.ok.inj ((Session.create_of_connected hn).symm.trans hc)).symm
  case start token config =>
    rw [outcome]
    cases hc : config.connected
    case false =>
      left
      rw [Session.start_of_not_connected hc]
      simpa [pure, Script.run, Except.toOption] using idle (.start token config)
    case true =>
      right
      rw [Session.start_of_connected hc, Session.run_launch]
      exact ⟨_, _, Worker.start, .single (.load .start), fun _ hm => mem_append_launched hm⟩
  case establish token record config =>
    rw [outcome]
    cases hc : config.connected
    case false =>
      left
      rw [Session.establish_of_not_connected hc]
      simpa [pure, Script.run, Except.toOption] using idle (.establish token record config)
    case true =>
      right
      rw [Session.establish_of_connected hc, Session.run_launch]
      let worker : Session :=
        { Session.fresh token config with state := .held (.of { record with uid := token } true) }
      have hu : Deed.Uses worker (.establish token record config)
        (.write config.settings.neverExpires) := .establish
      exact ⟨worker, _, .establish, .single (.finish hu rfl), fun _ hm => mem_append_launched hm⟩
  case lookup token refresh =>
    right
    rw [outcome]
    rw [Session.run_lookup]
    have hu : Deed.Uses (.visitor token refresh) (.lookup token refresh) .load := .lookup
    exact ⟨_, _, .lookup, steps_lookup hu, fun _ hm => .inl hm⟩
  case operate index operation =>
    rw [outcome]
    dsimp only
    split
    case h_1 => exact .inl (idle _)
    case h_2 session hs =>
      right
      exact ⟨session, _, .operate hs, Operation.steps (fun _ hp => .operate hp) .begin,
        fun _ hm => List.mem_or_eq_of_mem_set hm⟩

end World
end Entitlement
