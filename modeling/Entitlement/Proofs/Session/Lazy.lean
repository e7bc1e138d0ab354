import Entitlement.Proofs.Session.Loading
/-!
Records are loaded when they are needed, and once. The functions that do so call each other in a
circle, which is left at its first turn: the record is in memory before its lifetime is refreshed.
So no operation looks up more than one record, and none reports that its record was not loaded.
-/

namespace Entitlement

variable {α β : Type} {session next : Session} {exchanges more : List Exchange} {limit : Nat}

namespace Session

-- The functions of the circle, each with what comes of the call to load that closes it.

def heldBy (load : Action Unit) : Action Held := do
  match (← get).state with
  | .unloaded => load
  | _ => pure ()
  let session ← get
  match session.state with
  | .held held => return held
  | .removed => throw (.removed session.token)
  | .unloaded => throw (.notLoaded session.token)

def userBy (load : Action Unit) : Action String :=
  return (← heldBy load).record.user.id

def refreshBy (load : Action Unit) (never : Bool) : Action Unit := do
  refreshFor (← userBy load) never

def loadBy (load : Action Unit) : Action Unit := do
  ensureNotRemoved
  let session ← get
  let record ← fetch session.token
  setState (.held (.of record false))
  if session.refreshOnLoad then refreshBy load false

-- With a record in memory nothing is loaded, so that it makes no difference what would come of it.
theorem perform_refreshBy (again : Action Unit) {held : Held} (hs : session.state = .held held)
    (never : Bool) : perform (refreshBy again never) session =
      perform (refreshFor held.record.user.id never) session := by
  cases session
  cases hs
  rfl

theorem perform_setState_bind (state : State) (f : Unit → Action α) :
    perform (setState state >>= f) session = perform (f ()) { session with state } :=
  rfl

theorem loadBy_eq (again : Action Unit) : loadBy again = load := by
  have refreshed (record : Record) (refresh : Bool) :
      (setState (.held (.of record false)) >>= fun _ =>
        if refresh then refreshBy again false else pure ()) =
      (setState (.held (.of record false)) >>= fun _ =>
        if refresh then refreshFor record.user.id false else pure ()) := by
    refine funext fun session => ?_
    change perform _ session = perform _ session
    rw [perform_setState_bind, perform_setState_bind]
    cases refresh
    case false => rfl
    case true =>
      have hs : (session.read record).state = .held (.of record false) := rfl
      exact perform_refreshBy again hs false
  rw [loadBy, load]
  simp only [refreshed]

end Session

-- So many records are looked up at most, and it is not said that one was not loaded.
structure Prompt (limit : Nat) (exchanges : List Exchange) (answer : Except AccessError α) :
    Prop where
  sought : (exchanges.filterMap Exchange.sought?).length ≤ limit
  loaded : ∀ token, answer ≠ .error (.notLoaded token)

namespace Prompt

theorem silent {answer : Except AccessError α} (h : ∀ token, answer ≠ .error (.notLoaded token)) :
    Prompt limit [] answer :=
  ⟨Nat.zero_le _, h⟩

-- A failure is the same whatever there would have been otherwise.
theorem failed {error : AccessError} (h : Prompt limit exchanges (.error error : Except _ α)) :
    Prompt limit exchanges (.error error : Except _ β) :=
  ⟨h.sought, fun token he => h.loaded token (congrArg Except.error (Except.error.inj he))⟩

theorem map {answer : Except AccessError α} (f : α → β) (h : Prompt limit exchanges answer) :
    Prompt limit exchanges (answer.map f) := by
  cases answer
  case error => exact h.failed
  case ok => exact ⟨h.sought, nofun⟩

theorem append {limit' : Nat} {answer : Except AccessError α} {other : Except AccessError β}
    (h : Prompt limit exchanges answer) (hn : Prompt limit' more other) :
    Prompt (limit + limit') (exchanges ++ more) other where
  sought := by
    rw [List.filterMap_append, List.length_append]
    exact Nat.add_le_add h.sought hn.sought
  loaded := hn.loaded

theorem mono {limit' : Nat} {answer : Except AccessError α} (h : Prompt limit exchanges answer)
    (hl : limit ≤ limit') : Prompt limit' exchanges answer :=
  ⟨h.sought.trans hl, h.loaded⟩

end Prompt

-- Whatever the replies are, an action is prompt, and comes to what is said when it succeeds.
def Seeks (limit : Nat) (post : α → Session → Prop) (session : Session) (action : Action α) :
    Prop :=
  ∀ exchanges result, (Session.perform action session).Hears exchanges result →
    Prompt limit exchanges result.1 ∧ ∀ value, result.1 = .ok value → post value result.2

-- The lookups that a session may still need: one, unless it has its record or has lost it for good.
def Session.lookups (session : Session) : Nat :=
  match session.state with
  | .unloaded => 1
  | _ => 0

theorem Session.lookups_le_one (session : Session) : session.lookups ≤ 1 := by
  rw [lookups]
  split <;> decide

namespace Seeks

variable {post : α → Session → Prop} {action : Action α}

theorem pure {value : α} (hp : post value session) : Seeks limit post session (pure value) := by
  rintro _ _ (_ | _)
  exact ⟨.silent nofun, fun _ he => Except.ok.inj he ▸ hp⟩

theorem throw {error : AccessError} (h : ∀ token, error ≠ .notLoaded token) :
    Seeks limit post session (throw error) := by
  rintro _ _ (_ | _)
  exact ⟨.silent fun token he => h token (Except.error.inj he), nofun⟩

theorem setState {state : Session.State} {post : Unit → Session → Prop}
    (hp : post () { session with state }) : Seeks limit post session (Session.setState state) := by
  rintro _ _ (_ | _)
  exact ⟨.silent nofun, fun _ _ => hp⟩

theorem send {command : Command} (hc : ∀ reply, Exchange.sought? ⟨command, reply⟩ = none) :
    Seeks limit (fun _ after => after = session) session (Session.send command) := by
  intro exchanges result h
  change (Script.send command _).Hears exchanges result at h
  obtain _ | ⟨cause | reply, _ | _⟩ := h
  all_goals
    refine ⟨⟨?_, nofun⟩, ?_⟩
    · simp [hc]
  · exact nofun
  · exact fun _ _ => rfl

theorem mono {limit' : Nat} {post' : α → Session → Prop} (h : Seeks limit post session action)
    (hl : limit ≤ limit') (hp : ∀ value next, post value next → post' value next) :
    Seeks limit' post' session action :=
  fun exchanges result hh =>
    have ⟨hs, hv⟩ := h exchanges result hh
    ⟨hs.mono hl, fun value he => hp value result.2 (hv value he)⟩

theorem get_bind {f : Session → Action α} (h : Seeks limit post session (f session)) :
    Seeks limit post session (get >>= f) :=
  h

theorem bind_add {limit' : Nat} {post' : β → Session → Prop} {f : α → Action β}
    (h : Seeks limit post session action)
    (hf : ∀ value next, post value next → Seeks limit' post' next (f value)) :
    Seeks (limit + limit') post' session (action >>= f) := by
  intro exchanges result hh
  obtain ⟨error, next, rfl, ha⟩ | ⟨value, next, first, more, rfl, ha, hn⟩ :=
    Session.hears_bind_cases hh
  · exact ⟨(h exchanges _ ha).1.failed.mono (Nat.le_add_right ..), nofun⟩
  · obtain ⟨hs, hp⟩ := h first _ ha
    obtain ⟨hr, hv⟩ := hf value next (hp value rfl) more result hn
    exact ⟨hs.append hr, hv⟩

-- What is looked up is looked up in the first part.
theorem bind {post' : β → Session → Prop} {f : α → Action β} (h : Seeks limit post session action)
    (hf : ∀ value next, post value next → Seeks 0 post' next (f value)) :
    Seeks limit post' session (action >>= f) :=
  h.bind_add hf

-- Nothing is looked up in the first part.
theorem idle_bind {post' : β → Session → Prop} {f : α → Action β} (h : Seeks 0 post session action)
    (hf : ∀ value next, post value next → Seeks limit post' next (f value)) :
    Seeks limit post' session (action >>= f) :=
  Nat.zero_add limit ▸ h.bind_add hf

theorem ensureNotRemoved : Seeks 0 (fun _ after => after = session) session
    Session.ensureNotRemoved := by
  refine get_bind ?_
  split
  · exact throw nofun
  · exact pure rfl

theorem expireBoth {user : String} {seconds : UInt64} :
    Seeks 0 (fun _ after => after = session) session (Session.expireBoth user seconds) := by
  refine get_bind (bind (send fun _ => rfl) ?_)
  rintro _ _ rfl
  refine bind (send fun _ => rfl) ?_
  rintro _ _ rfl
  exact pure rfl

theorem persistBoth {user : String} :
    Seeks 0 (fun _ after => after = session) session (Session.persistBoth user) := by
  refine get_bind (bind (send fun _ => rfl) ?_)
  rintro _ _ rfl
  refine bind (send fun _ => rfl) ?_
  rintro _ _ rfl
  exact pure rfl

theorem refreshFor {user : String} {never : Bool} :
    Seeks 0 (fun _ after => after = session) session (Session.refreshFor user never) := by
  refine get_bind ?_
  cases never
  case false => exact expireBoth
  case true => exact persistBoth

theorem fetch {token : String} :
    Seeks 1 (fun _ after => after = session) session (Session.fetch token) := by
  intro exchanges result h
  rw [Session.perform_fetch] at h
  obtain _ | ⟨reply, _ | _⟩ := h
  refine ⟨⟨Nat.le_refl 1, fun other he => ?_⟩, fun _ _ => rfl⟩
  obtain ⟨_, he⟩ | he | he := Session.of_told_error he
  all_goals simp at he

-- The record is in memory before its lifetime is refreshed, and stays there.
theorem load : Seeks 1 (fun _ after => ∃ held, after.state = .held held) session Session.load := by
  refine idle_bind ensureNotRemoved ?_
  rintro _ _ rfl
  refine get_bind (bind fetch fun record next he => ?_)
  have hs : Seeks 0 (fun _ after => after.state = .held (.of record false)) next
    (Session.setState (.held (.of record false))) := setState rfl
  refine bind hs fun _ after hs => ?_
  subst he
  split
  · exact mono refreshFor (Nat.le_refl 0) fun _ _ he => ⟨_, he ▸ hs⟩
  · exact pure ⟨_, hs⟩

theorem present {held : Held} (hs : session.state = .held held) :
    Seeks 0 (fun value after => after.state = .held value) session Session.present := by
  refine get_bind ?_
  rw [hs]
  exact pure hs

theorem held : Seeks session.lookups (fun held after => after.state = .held held) session
    Session.held := by
  obtain ⟨token, lifetime, refresh, state⟩ := session
  cases state
  case held held =>
    let session : Session := ⟨token, lifetime, refresh, .held held⟩
    have hp : Seeks 0 (fun held after => after.state = .held held) session Session.present :=
      present rfl
    exact hp
  case removed =>
    rintro _ _ (_ | _)
    exact ⟨.silent nofun, nofun⟩
  case unloaded =>
    let session : Session := ⟨token, lifetime, refresh, .unloaded⟩
    have hl : Seeks 1 (fun held after => after.state = .held held) session
      (Session.load >>= fun _ => Session.present) := bind load fun _ _ ⟨_, hs⟩ => present hs
    exact hl

-- With a record in memory nothing is looked up any more.
theorem settled (h : Seeks session.lookups post session action) {held : Held}
    (hs : session.state = .held held) : Seeks 0 post session action := by
  rwa [Session.lookups, hs] at h

theorem user : Seeks session.lookups (fun _ after => ∃ held, after.state = .held held) session
    Session.user :=
  bind held fun held _ hs => pure ⟨held, hs⟩

theorem record : Seeks session.lookups (fun _ _ => True) session Session.record :=
  bind held fun _ _ _ => pure trivial

theorem decoded {blob : String} :
    Seeks 0 (fun _ after => after = session) session (Session.decoded blob) := by
  rw [Session.decoded]
  split
  · exact pure rfl
  · exact throw (by simp)

theorem remember {next : Held} : Seeks 0 (fun _ after => ∃ held, after.state = .held held) session
    (Session.setState (.held next)) :=
  setState ⟨next, rfl⟩

theorem activeGrants : Seeks session.lookups (fun _ _ => True) session Session.activeGrants := by
  refine bind held fun held next hs => ?_
  split
  case h_1 => exact pure trivial
  case h_2 => exact bind decoded fun _ _ _ => bind remember fun _ _ _ => pure trivial

theorem fullGrants : Seeks session.lookups (fun _ after => ∃ held, after.state = .held held) session
    Session.fullGrants := by
  refine bind held fun held next hs => ?_
  split
  case h_1 => exact pure ⟨held, hs⟩
  case h_2 => exact bind decoded fun _ _ _ => bind remember fun _ _ hl => pure hl

theorem can {action objectType path definition : String} :
    Seeks session.lookups (fun _ _ => True) session
      (Session.can action objectType path definition) :=
  bind fullGrants fun _ _ _ => pure trivial

theorem isActive {action objectType path definition : String} :
    Seeks session.lookups (fun _ _ => True) session
      (Session.isActive action objectType path definition) :=
  bind activeGrants fun _ _ _ => pure trivial

theorem activate {grants : List Grant} : Seeks session.lookups
    (fun _ after => ∃ held, after.state = .held held) session (Session.activate grants) :=
  bind held fun _ _ _ => remember

theorem write {never : Bool} :
    Seeks session.lookups (fun _ _ => True) session (Session.write never) := by
  refine bind held fun held next hs => get_bind ?_
  refine (send fun _ => rfl).bind fun _ _ _ => (send fun _ => rfl).bind fun _ _ _ =>
    (send fun _ => rfl).bind fun _ _ _ => ?_
  cases never
  case false => exact (send fun _ => rfl).bind fun _ _ _ => setState trivial
  case true => exact bind persistBoth fun _ _ _ => setState trivial

theorem restrict {grants : List Grant} {store : Bool} :
    Seeks session.lookups (fun _ _ => True) session (Session.restrict grants store) := by
  refine bind fullGrants fun full next hs => ?_
  split
  case h_1 => exact throw nofun
  case h_2 =>
    obtain ⟨held, hs⟩ := hs
    refine (settled activate hs).bind fun _ after ⟨held, hs⟩ => ?_
    split
    · exact settled write hs
    · exact pure trivial

theorem restore : Seeks session.lookups (fun _ _ => True) session Session.restore :=
  bind fullGrants fun _ _ ⟨_, hs⟩ => (settled held hs).bind fun _ _ _ => setState trivial

theorem setLifetime {seconds : UInt64} :
    Seeks session.lookups (fun _ _ => True) session (Session.setLifetime seconds) :=
  bind user fun _ _ _ => mono expireBoth (Nat.le_refl 0) fun _ _ _ => trivial

theorem refresh {never : Bool} :
    Seeks session.lookups (fun _ _ => True) session (Session.refresh never) :=
  bind user fun _ _ _ => mono refreshFor (Nat.le_refl 0) fun _ _ _ => trivial

theorem remaining : Seeks 0 (fun _ after => after = session) session Session.remaining := by
  refine bind ensureNotRemoved ?_
  rintro _ next rfl
  have hs : Seeks 0 _ next (Session.send (.ttl (Key.record next.token))) := send fun _ => rfl
  exact hs

theorem intoRecord :
    Seeks session.lookups (fun _ _ => True) session Session.intoRecord := by
  refine bind held fun held next hs => get_bind ?_
  rw [hs]
  exact pure trivial

theorem remove : Seeks session.lookups (fun _ _ => True) session Session.remove :=
  bind user fun _ _ _ => get_bind <| (send fun _ => rfl).bind fun _ _ _ =>
    (send fun _ => rfl).bind fun _ _ _ => setState trivial

theorem save {never : Bool} :
    Seeks session.lookups (fun _ _ => True) session (Session.save never) := by
  refine bind held fun held next hs => ?_
  split
  · exact settled write hs
  · exact settled refresh hs

theorem operation (operation : Operation) :
    Seeks 1 (fun _ _ => True) session operation.ask := by
  have lazily {α : Type} {post : α → Session → Prop} {action : Action α}
      (h : Seeks session.lookups post session action) : Seeks 1 (fun _ _ => True) session action :=
    h.mono session.lookups_le_one fun _ _ _ => trivial
  cases operation
  case load => exact mono load (Nat.le_refl 1) fun _ _ _ => trivial
  case record => exact lazily record
  case user => exact lazily user
  case activeGrants => exact lazily activeGrants
  case fullGrants => exact lazily fullGrants
  case activate => exact lazily activate
  case restrict => exact lazily restrict
  case restore => exact lazily restore
  case can => exact lazily can
  case isActive => exact lazily isActive
  case remaining => exact mono remaining (Nat.zero_le 1) fun _ _ _ => trivial
  case setLifetime => exact lazily setLifetime
  case refresh => exact lazily refresh
  case save => exact lazily save
  case remove => exact lazily remove
  case intoRecord => exact lazily intoRecord

theorem entry : Seeks 1 (fun _ _ => True) session Directory.lookup.entry := by
  have shown {session : Session} {held : Held} (hs : session.state = .held held)
      (remaining : Store.Lifetime) : Seeks 0 (fun _ _ => True) session
        (do return Directory.Entry.mk (← Session.intoRecord) remaining) :=
    (settled intoRecord hs).bind fun _ _ _ => pure trivial
  refine bind load fun _ next ⟨held, hs⟩ => get_bind ?_
  dsimp only
  split
  · exact shown hs _
  · exact bind remaining fun remaining _ he => shown (he ▸ hs) remaining

end Seeks

namespace Prompt

variable {answer : Except AccessError α}

theorem create (token : String) (config : Config) :
    Prompt limit [] (Session.create token config) := by
  refine .silent fun other h => ?_
  cases hc : config.connected
  case false => exact nomatch (Session.create_of_not_connected hc).symm.trans h
  case true => exact nomatch (Session.create_of_connected hc).symm.trans h

theorem launch {post : Unit → Session → Prop} {action : Action Unit}
    {session : Except AccessError Session} {answer : Except AccessError Session}
    (ha : ∀ session, Seeks limit post session action) (hs : Prompt limit [] session)
    (h : (Session.launch action session).Hears exchanges answer) :
    Prompt limit exchanges answer := by
  obtain ⟨_, rfl, rfl, rfl⟩ | ⟨session, result, rfl, hf, rfl⟩ := Session.hears_launch_cases h
  · exact hs
  · exact (ha session exchanges result hf).1.map fun _ => result.2

theorem ask {command : Command} {answer : Except AccessError command.Reply}
    (hc : ∀ reply, Exchange.sought? ⟨command, reply⟩ = none)
    (h : (Directory.ask command).run.Hears exchanges answer) : Prompt limit exchanges answer := by
  change (Script.send command _).Hears exchanges answer at h
  obtain _ | ⟨cause | reply, _ | _⟩ := h
  all_goals
    refine ⟨?_, nofun⟩
    simp [hc]

end Prompt

theorem Demand.prompt {demand : Demand} {answer : Except AccessError demand.Answer}
    (h : demand.script.Hears exchanges answer) : Prompt 1 exchanges answer := by
  cases demand
  case operate session operation =>
    obtain ⟨result, hp, rfl⟩ := Script.hears_map.mp h
    exact (Seeks.operation operation exchanges result hp).1
  case create token config =>
    obtain ⟨rfl, rfl⟩ := Script.hears_pure.mp h
    exact .create token config
  case start token config => exact .launch (fun _ => .load) (.create token config) h
  case establish token record config =>
    refine .launch (fun session => .mono .write session.lookups_le_one fun _ _ => id) ?_ h
    exact (Prompt.create token config).map _
  case lookup token refresh =>
    rw [script, Directory.lookup, Session.create_of_connected rfl] at h
    obtain ⟨result, hp, rfl⟩ := Script.hears_map.mp (h : (Prod.fst <$> _ : Script _).Hears _ _)
    exact (Seeks.entry exchanges result hp).1
  case tokensOf user => exact .ask (fun _ => rfl) h

-- Looking at keys one after another comes to an end only where the time that is left is not told.
theorem Directory.entries_failed {keys : List String} {answer : Except AccessError (List Entry)}
    {error : AccessError} (h : (entries keys).run.Hears exchanges answer)
    (he : answer = .error error) : ∃ cause, error = .store "ttl" cause := by
  induction keys generalizing exchanges answer
  case nil =>
    obtain ⟨rfl, rfl⟩ := Script.hears_pure.mp h
    cases he
  case cons key keys hi =>
    rw [entries_cons] at h
    obtain _ | ⟨reply, h⟩ := h
    cases hf : Exchange.found? ⟨.get key, reply⟩
    all_goals simp only [hf] at h
    case none => exact hi h he
    case some record =>
      obtain _ | ⟨cause | remaining, h⟩ := h
      case error =>
        cases h
        cases he
        exact ⟨cause, rfl⟩
      case ok =>
        obtain ⟨rest, first, more, rfl, hr, hn⟩ := Script.hears_bind.mp h
        obtain ⟨rfl, rfl⟩ := Script.hears_pure.mp hn
        cases rest
        case error other => exact hi hr (congrArg Except.error (Except.error.inj he))
        case ok => cases he

-- A whole run of operations, each of which finds the session as the one before has left it.
theorem Session.prompt_converse {operations : List Operation}
    {result : List Operation.Result × Session}
    (h : (converse Operation.ask operations session).Hears exchanges result) :
    (exchanges.filterMap Exchange.sought?).length ≤ operations.length ∧
      ∀ given ∈ result.1, ∀ token, given.answer ≠ .error (.notLoaded token) := by
  induction operations generalizing session exchanges result
  case nil =>
    obtain ⟨rfl, rfl⟩ := Script.hears_pure.mp h
    exact ⟨Nat.le_refl 0, List.forall_mem_nil _⟩
  case cons operation operations hi =>
    obtain ⟨⟨answer, next⟩, first, more, rfl, ha, hn⟩ := Script.hears_bind.mp h
    obtain ⟨⟨results, last⟩, rest, none, rfl, hr, hd⟩ := Script.hears_bind.mp hn
    obtain ⟨rfl, rfl⟩ := Script.hears_pure.mp hd
    have hp : Prompt 1 first answer := (Seeks.operation operation first _ ha).1
    have ⟨hs, hl⟩ := hi hr
    refine ⟨?_, List.forall_mem_cons.mpr ⟨hp.loaded, hl⟩⟩
    have := hp.sought
    simp only [List.append_nil, List.filterMap_append, List.length_append, List.length_cons]
    omega

-- It makes no difference what comes of the call that closes the circle. Whatever the cache replies,
-- what is asked for looks up one record at most, and each operation of a run does; and nothing that
-- is asked for, the list of all identities included, reports that a record was not loaded.
theorem loaded_once :
    (∀ again, Session.loadBy again = Session.load ∧
      Session.heldBy (Session.loadBy again) = Session.held ∧
      Session.userBy (Session.loadBy again) = Session.user ∧
      ∀ never, Session.refreshBy (Session.loadBy again) never = Session.refresh never) ∧
    (∀ (demand : Demand) exchanges answer, demand.script.Hears exchanges answer →
      (exchanges.filterMap Exchange.sought?).length ≤ 1 ∧
        ∀ token, answer ≠ .error (.notLoaded token)) ∧
    (∀ operations session exchanges result,
      (Session.converse Operation.ask operations session).Hears exchanges result →
        (exchanges.filterMap Exchange.sought?).length ≤ operations.length ∧
          ∀ given ∈ result.1, ∀ token, given.answer ≠ .error (.notLoaded token)) ∧
    ∀ exchanges answer, Directory.all.run.Hears exchanges answer →
      ∀ token, answer ≠ .error (.notLoaded token) := by
  refine ⟨fun again => ?circle, fun demand exchanges answer h => ?demand,
    fun _ _ _ _ h => Session.prompt_converse h, fun exchanges answer h token he => ?all⟩
  case circle =>
    have hl : Session.loadBy again = Session.load := Session.loadBy_eq again
    rw [hl]
    exact ⟨rfl, rfl, rfl, fun _ => rfl⟩
  case demand =>
    have hp : Prompt 1 exchanges answer := Demand.prompt h
    exact ⟨hp.sought, hp.loaded⟩
  case all =>
    change (Script.send (.keys Key.start) _).Hears exchanges answer at h
    obtain _ | ⟨cause | keys, h⟩ := h
    case error =>
      cases h
      cases he
    case ok =>
      obtain ⟨_, hc⟩ := Directory.entries_failed h he
      cases hc

-- A record is loaded, and its lifetime is refreshed except in the index. When it is asked for again
-- it is in memory.
theorem loaded_once_although_refused :
    let record : Record := .create "u" []
    let cause : StoreError := .unavailable "away"
    let session (state : Session.State) : Session := ⟨"t", 60, true, state⟩
    let user : Demand := .operate (session .unloaded) .user
    let failed : Except AccessError user.Answer := .error (.store "expire" cause)
    let heard : List Exchange := [⟨.get (Key.record "t"), .ok (some record.encode)⟩,
      ⟨.expire (Key.record "t") 60, .ok true⟩, ⟨.expire (Key.index "u") 60, .error cause⟩]
    let results : List Operation.Result := [⟨.user, failed⟩, ⟨.user, .ok "u"⟩]
    user.script.Hears heard failed ∧ (heard.filterMap Exchange.sought?).length ≤ 1 ∧
      (Session.converse Operation.ask [.user, .user] (session .unloaded)).Hears heard
        (results, session (.held (.of record false))) ∧
      (∀ given ∈ results, ∀ token, given.answer ≠ .error (.notLoaded token)) ∧
      Directory.all.run.Hears [⟨.keys Key.start, .error cause⟩] (.error (.store "keys" cause)) ∧
      ∀ token, AccessError.store "keys" cause ≠ .notLoaded token := by
  intro record cause session user failed heard results
  have hd : Record.decode? record.encode = some record := Record.Bare.decode?_encode ⟨rfl, rfl⟩
  have hl : (Session.perform Session.load (session .unloaded)).Hears heard
      (.error (.store "expire" cause), session (.held (.of record false))) := by
    have hs : (session .unloaded).state ≠ .removed := nofun
    have hf : Exchange.found? ⟨.get (Key.record "t"), .ok (some record.encode)⟩ = some record := hd
    have ht : Session.told "t" (.ok (some record.encode)) = .ok record := Session.told_eq_ok.mpr hf
    exact Session.hears_load_refused hs rfl ht cause
  have hu : (Session.perform Operation.user.ask (session .unloaded)).Hears heard
      (failed, session (.held (.of record false))) := by
    change (Session.perform ((Session.load >>= fun _ => Session.present) >>= _) _).Hears _ _
    rw [bind_assoc, Session.perform_bind]
    exact Script.hears_bind.mpr ⟨_, heard, [], rfl, hl, .done⟩
  have ha : Directory.all.run.Hears [⟨.keys Key.start, .error cause⟩]
      (.error (.store "keys" cause)) := .send _ .done
  have hs : user.script.Hears heard failed := Script.hears_map.mpr ⟨_, hu, rfl⟩
  have hr : (Session.converse Operation.ask [.user, .user] (session .unloaded)).Hears heard
      (results, session (.held (.of record false))) :=
    Script.hears_bind.mpr ⟨_, heard, [], rfl, hu, .done⟩
  have ⟨_, hp, hc, hn⟩ := loaded_once
  exact ⟨hs, (hp user heard failed hs).1, hr, (hc _ _ heard _ hr).2, ha,
    fun token he => hn _ _ ha token (congrArg Except.error he)⟩

end Entitlement
