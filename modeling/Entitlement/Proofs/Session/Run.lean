import Entitlement.Session.Directory
import Entitlement.Proofs.Session.Upkeep
/-!
Runs of several sessions of one token over one cache: whole operations one after another, each in
circumstances of its own. In each of them any commands can be refused.
-/

namespace Entitlement

inductive Operation where
  | load
  | record
  | user
  | activeGrants
  | fullGrants
  | activate (grants : List Grant)
  | restrict (grants : List Grant) (store : Bool)
  | restore
  | can (action objectType path definition : String)
  | isActive (action objectType path definition : String)
  | remaining
  | setLifetime (seconds : UInt64)
  | refresh (never : Bool)
  | save (never : Bool)
  | remove
  | intoRecord

namespace Operation

def action : Operation → Action Unit
  | load => Session.load
  | record => do let _ ← Session.record
  | user => do let _ ← Session.user
  | activeGrants => do let _ ← Session.activeGrants
  | fullGrants => do let _ ← Session.fullGrants
  | activate grants => Session.activate grants
  | restrict grants store => Session.restrict grants store
  | restore => Session.restore
  | can action objectType path definition => do
    let _ ← Session.can action objectType path definition
  | isActive action objectType path definition => do
    let _ ← Session.isActive action objectType path definition
  | remaining => do let _ ← Session.remaining
  | setLifetime seconds => Session.setLifetime seconds
  | refresh never => Session.refresh never
  | save never => Session.save never
  | remove => Session.remove
  | intoRecord => do let _ ← Session.intoRecord

-- A list becomes active only after it was checked against the full one.
def Checked (operation : Operation) : Prop :=
  ∀ grants, operation ≠ activate grants

end Operation

-- What can happen: a session is begun in one of three ways, the record is looked up, or one of the
-- sessions does something.
inductive Move where
  | create (config : Config)
  | start (config : Config)
  | establish (user : String) (grants : List Grant) (config : Config)
  | lookup (refresh : Bool)
  | operate (index : Nat) (operation : Operation)

def Move.Checked (move : Move) : Prop :=
  ∀ index operation, move = operate index operation → operation.Checked

-- A property of the records in memory stands what a move does to them beside the usual changes.
structure Move.Kept (contract : Contract) (token : String) (inv : Held → Prop) (move : Move) :
    Prop where
  establish : ∀ user grants config, move = .establish user grants config →
    inv (.of { Record.create user grants with uid := token } true)
  activate : ∀ index grants, move = .operate index (.activate grants) →
    Keeps contract token inv (fun _ => True) (Session.activate grants) fun _ _ => True

structure Event where
  move : Move
  refuse : Script.Refusal
  now : Instant

-- Around the events of a token, others may send any commands to the cache.
inductive Turn where
  | event (event : Event)
  | command (command : Command) (now : Instant)

-- No record is put under the token.
def Turn.Spares (token : String) : Turn → Prop
  | .event happened => ∀ user grants config, happened.move ≠ .establish user grants config
  | .command sent _ => ∀ ttl data, sent ≠ .setex (Key.record token) ttl data

structure World where
  cache : Store
  sessions : List Session

namespace World

theorem mem_toList {result : Except AccessError Session}
    (h : session ∈ result.toOption.toList) : result = .ok session := by
  cases result
  case error => exact nomatch h
  case ok value =>
    cases List.mem_singleton.mp h
    rfl

-- A new session is added if there is one.
def join (world : World) (outcome : Script.Outcome (Except AccessError Session)) : World where
  cache := outcome.store
  sessions := world.sessions ++ outcome.value.toOption.toList

def step (token : String) (world : World) (event : Event) : World :=
  match event.move with
  | .create config =>
    { world with sessions := world.sessions ++ (Session.create token config).toOption.toList }
  | .start config =>
    world.join ((Session.start token config).run event.refuse event.now [] world.cache)
  | .establish user grants config =>
    world.join ((Session.establish token (.create user grants) config).run event.refuse event.now []
      world.cache)
  | .lookup refresh =>
    { world with
      cache := ((Directory.lookup token refresh).run event.refuse event.now [] world.cache).store }
  | .operate index operation =>
    match world.sessions[index]? with
    | none => world
    | some session =>
      let outcome := Session.outcome operation.action session event.refuse event.now [] world.cache
      { cache := outcome.store, sessions := world.sessions.set index outcome.value.2 }

def run (token : String) (world : World) (events : List Event) : World :=
  events.foldl (step token) world

def turn (token : String) (world : World) : Turn → World
  | .event event => world.step token event
  | .command command now => { world with cache := (world.cache.reply now command).2 }

def turns (token : String) (world : World) (turns : List Turn) : World :=
  turns.foldl (turn token) world

end World

-- The cache has a property, and so has every record in memory.
structure World.Sane (token : String) (inv : Held → Prop) (upheld : Store → Prop) (world : World) :
    Prop where
  cache : upheld world.cache
  sessions : ∀ session ∈ world.sessions, session.Sane token inv

variable {contract : Contract} {token : String} {inv : Held → Prop} {upheld : Store → Prop}

namespace Session

variable {record : Record} {config : Config}

-- The command that writes a record under a token.
def deposit (token : String) (record : Record) (config : Config) : Command :=
  .setex (Key.record token) config.lifetime (Held.of { record with uid := token } true).record.encode

-- There is a cache, and the first command, which writes the record, goes through.
structure Deposited (token : String) (record : Record) (config : Config)
    (refuse : Script.Refusal) : Prop where
  connected : config.connected
  served : refuse [] (deposit token record config) = none

theorem create_of_connected (h : config.connected = true) : create token config =
    .ok ⟨token, config.lifetime, config.settings.refreshOnLoad, .unloaded⟩ := by
  have hc : config.ensureConnected = .ok () := by simp [Config.ensureConnected, h]
  rw [create, hc]
  rfl

theorem create_of_not_connected (h : config.connected = false) :
    create token config = .error .noStore := by
  have hc : config.ensureConnected = .error .noStore := by simp [Config.ensureConnected, h]
  rw [create, hc]
  rfl

theorem create_eq (h : create token config = .ok session) :
    session.token = token ∧ session.state = .unloaded := by
  cases hc : config.connected
  case false => exact nomatch (create_of_not_connected hc).symm.trans h
  case true =>
    cases (create_of_connected hc).symm.trans h
    exact ⟨rfl, rfl⟩

theorem establish_eq (token : String) (record : Record) (h : config.connected = true) : ∃ next,
    establish token record config = .send (deposit token record config) next ∧
      ∀ cause, ∃ error, next (.error cause) = pure (.error error) := by
  rw [establish, create_of_connected h]
  exact ⟨_, rfl, fun _ => ⟨_, rfl⟩⟩

theorem deposited_of_established
    (h : ((establish token record config).run refuse now [] cache).value = .ok session) :
    Deposited token record config refuse := by
  cases hc : config.connected
  case false =>
    rw [establish, create_of_not_connected hc] at h
    exact nomatch h
  case true =>
    refine ⟨hc, ?_⟩
    have ⟨next, he, hf⟩ := establish_eq token record hc
    rw [he, Script.run] at h
    cases hr : refuse [] (deposit token record config)
    case none => rfl
    case some cause =>
      obtain ⟨error, hn⟩ := hf cause
      simp only [hr, hn] at h
      cases h

end Session

-- To look at an identity it has to be loaded, and then not more than its lifetime is asked for.
theorem Keeps.entry {pre : Session → Prop} {p : Held → Prop}
    (hl : Keeps contract token inv pre Session.load fun _ session => session.Holding p)
    (ht : contract.sends (.ttl (Key.record token))) :
    Keeps contract token inv pre Directory.lookup.entry fun entry session =>
      session.Holding fun held => held.record = entry.record := by
  have shown (remaining : Store.Lifetime) :
      Keeps contract token inv (·.Holding p)
        (do return Directory.Entry.mk (← Session.intoRecord) remaining) fun entry session =>
          session.Holding fun held => held.record = entry.record :=
    .bind (Keeps.intoRecord.mono (fun _ ⟨held, hs, _⟩ => ⟨held, hs, trivial⟩) fun _ _ h => h)
      fun _ => .pure fun _ h => h
  refine .bind hl fun _ => .bind .get fun session => ?_
  dsimp only
  split
  · exact .bind .skip fun _ => (shown _).mono (fun _ h => h.2.2) fun _ _ h => h
  · exact .bind (.remaining ht) fun _ => (shown _).mono (fun _ h => h.2.2) fun _ _ h => h

namespace Upkeep

-- An unchecked list is the only thing that `Upkeep` does not tell the effect of.
theorem operation (u : Upkeep contract token inv) (operation : Operation)
    (h : ∀ grants, operation = .activate grants →
      Keeps contract token inv (fun _ => True) (Session.activate grants) fun _ _ => True) :
    Keeps contract token inv (fun _ => True) operation.action fun _ _ => True := by
  have drop {α : Type} {action : Action α} {post : α → Session → Prop}
      (ha : Keeps contract token inv (fun _ => True) action post) :
      Keeps contract token inv (fun _ => True) (do let _ ← action) fun _ _ => True :=
    .bind ha fun _ => .pure fun _ _ => trivial
  have weaken {action : Action Unit} {post : Unit → Session → Prop}
      (ha : Keeps contract token inv (fun _ => True) action post) :
      Keeps contract token inv (fun _ => True) action fun _ _ => True :=
    ha.mono (fun _ h => h) fun _ _ _ => trivial
  cases operation
  case load => exact weaken u.load
  case record => exact drop u.record
  case user => exact drop u.user
  case activeGrants => exact drop u.activeGrants
  case fullGrants => exact drop u.fullGrants
  case activate grants => exact h grants rfl
  case restrict grants store => exact weaken (u.restrict grants store)
  case restore => exact weaken u.restore
  case can action objectType path definition =>
    exact drop (u.can action objectType path definition)
  case isActive action objectType path definition =>
    exact drop (u.isActive action objectType path definition)
  case remaining => exact drop u.remaining
  case setLifetime seconds => exact weaken (u.setLifetime seconds)
  case refresh never => exact weaken (u.refresh never)
  case save never => exact weaken (u.save never)
  case remove => exact weaken u.remove
  case intoRecord => exact drop u.intoRecord

-- A session that is begun with an action is as sane as the one it begins on.
theorem launch {action : Action Unit} {pre : Session → Prop} {post : Unit → Session → Prop}
    (ha : Keeps contract token inv pre action post) {begun : Except AccessError Session}
    (hb : ∀ session, begun = .ok session → session.Sane token inv ∧ pre session) :
    (Session.launch action begun).Meets contract fun result =>
      ∀ session, result = .ok session → session.Sane token inv := by
  match begun with
  | .error _ => exact nofun
  | .ok session =>
    have ⟨hs, hp⟩ := hb session rfl
    refine Script.meets_bind.mpr (Script.Meets.mono (ha session hs hp) fun (answer, after) h => ?_)
    intro last hl
    match answer with
    | .ok _ =>
      cases hl
      exact h.1

theorem create_sane (h : Session.create token config = .ok session) : session.Sane token inv := by
  have ⟨ht, hs⟩ := Session.create_eq h
  refine ⟨ht, fun held hh => ?_⟩
  rw [hs] at hh
  exact nomatch hh

theorem start (u : Upkeep contract token inv) (config : Config) :
    (Session.start token config).Meets contract fun result =>
      ∀ session, result = .ok session → session.Sane token inv := by
  have hl : Keeps contract token inv (fun _ => True) Session.load _ := u.load
  exact launch hl fun _ h => ⟨create_sane h, trivial⟩

theorem establish {identity : Record} (u : Upkeep contract token inv)
    (hi : inv (.of { identity with uid := token } true)) (config : Config) :
    (Session.establish token identity config).Meets contract fun result =>
      ∀ session, result = .ok session → session.Sane token inv := by
  have hw : Keeps contract token inv (fun _ => True)
    (Session.write config.settings.neverExpires) _ := u.write _
  refine launch hw fun session h => ⟨?_, trivial⟩
  cases hc : Session.create token config
  case error =>
    rw [hc] at h
    exact nomatch h
  case ok created =>
    rw [hc] at h
    cases h
    refine ⟨(Session.create_eq hc).1, ?_⟩
    rintro _ ⟨⟩
    exact hi

-- What is shown of an identity is a record that a session holds.
theorem lookup (u : Upkeep contract token inv) (refresh : Bool) :
    (Directory.lookup token refresh).Meets contract fun answer => ∀ entry, answer = .ok entry →
      ∃ held, inv held ∧ held.record = entry.record := by
  rw [Directory.lookup]
  split
  case h_1 => exact nofun
  case h_2 session hc =>
    have he : Keeps contract token inv (fun _ => True) Directory.lookup.entry _ :=
      .entry u.load (u.sends _ nofun)
    refine Script.meets_bind.mpr (Script.Meets.mono (he session (create_sane hc) trivial) ?_)
    intro result h entry ha
    have ⟨held, hs, hr⟩ := h.2 entry ha
    exact ⟨held, h.1.held held hs, hr⟩

end Upkeep

namespace World

variable {world : World} {event : Event} {events : List Event}

theorem Sane.join {script : Script (Except AccessError Session)} (h : world.Sane token inv upheld)
    (hc : contract.UpheldBy upheld)
    (hs : script.Meets contract fun result => ∀ session, result = .ok session →
      session.Sane token inv) (event : Event) :
    (world.join (script.run event.refuse event.now [] world.cache)).Sane token inv upheld := by
  have ⟨hv, hu⟩ := hs.run hc h.cache event.refuse event.now []
  refine ⟨hu, fun session hm => ?_⟩
  cases List.mem_append.mp hm
  case inl hm => exact h.sessions session hm
  case inr hm => exact hv session (mem_toList hm)

-- What was in the cache before does not matter once a record was written over it.
theorem Sane.of_deposited (u : Upkeep contract token inv) (hc : contract.UpheldBy upheld)
    (hi : inv (.of { Record.create user grants with uid := token } true))
    (hd : Session.Deposited token (.create user grants) config refuse)
    (hs : let written := store.reply now (Session.deposit token (.create user grants) config)
      contract.replies _ written.1 ∧ upheld written.2) :
    (step token ⟨store, []⟩ ⟨.establish user grants config, refuse, now⟩).Sane token inv upheld := by
  have hm := u.establish hi config
  have ⟨next, he, _⟩ := Session.establish_eq token (.create user grants) hd.connected
  rw [he] at hm
  have ⟨hv, hu⟩ := hm.run_served hc hd.served hs
  rw [← he] at hv hu
  exact ⟨hu, fun session h => hv session (mem_toList h)⟩

-- Whatever happens next, the world stays as sane as it was.
theorem Sane.step (u : Upkeep contract token inv) (hc : contract.UpheldBy upheld)
    (hm : event.move.Kept contract token inv) (h : world.Sane token inv upheld) :
    (world.step token event).Sane token inv upheld := by
  obtain ⟨move, refuse, now⟩ := event
  cases move
  case create config =>
    refine ⟨h.cache, fun session hs => ?_⟩
    cases List.mem_append.mp hs
    case inl hs => exact h.sessions session hs
    case inr hs => exact Upkeep.create_sane (mem_toList hs)
  case start config => exact h.join hc (u.start config) ⟨.start config, refuse, now⟩
  case establish user grants config =>
    have hi := hm.establish user grants config rfl
    exact h.join hc (u.establish hi config) ⟨.start config, refuse, now⟩
  case lookup refresh =>
    exact ⟨((u.lookup refresh).run hc h.cache refuse now []).2, h.sessions⟩
  case operate index operation =>
    rw [World.step]
    dsimp only
    split
    case h_1 => exact h
    case h_2 session hs =>
      have hk : Keeps contract token inv (fun _ => True) operation.action fun _ _ => True :=
        u.operation operation fun grants he => hm.activate index grants (he ▸ rfl)
      have ho := hk.outcome hc (h.sessions session (List.mem_of_getElem? hs)) trivial refuse now []
        world.cache h.cache
      refine ⟨ho.2.1, fun other hm => ?_⟩
      cases List.mem_or_eq_of_mem_set hm
      case inl hm => exact h.sessions other hm
      case inr he => exact he ▸ ho.1

theorem Sane.run (u : Upkeep contract token inv) (hc : contract.UpheldBy upheld)
    (hr : ∀ user grants, inv (.of { Record.create user grants with uid := token } true))
    (hm : ∀ event ∈ events, event.move.Checked) (h : world.Sane token inv upheld) :
    (world.run token events).Sane token inv upheld := by
  induction events generalizing world
  case nil => exact h
  case cons event events hi =>
    have hk : event.move.Kept contract token inv :=
      ⟨fun user grants _ _ => hr user grants, fun index grants he =>
        absurd rfl (hm event List.mem_cons_self index _ he grants)⟩
    exact hi (fun other ho => hm other (.tail _ ho)) (h.step u hc hk)

end World
end Entitlement
