import Entitlement.Proofs.Grant.Blob
import Entitlement.Proofs.Session.Composition
import Entitlement.Proofs.Store.Exchange
/-!
The lists that a session keeps once they were decoded. They are always what the texts in its record
decode to, so that a session which decodes these texts anew each time sends the same commands and gives
the same answers.
-/

namespace Entitlement

variable {α β : Type} {session : Session} {held : Held} {exchanges : List Exchange}

-- The full list is kept apart, and the lists that were decoded are those that the texts stand for.
structure Held.Current (held : Held) : Prop where
  apart : held.record.full?.isSome
  active : ∀ grants, held.active? = some grants → Blob.decode held.record.user.perms = .ok grants
  full : ∀ grants, held.full? = some grants → Blob.decode held.record.full = .ok grants

namespace Held

-- A record as it is held when nothing was decoded.
def fresh (record : Record) (modified : Bool) : Held :=
  ⟨record, none, none, modified⟩

def uncached (held : Held) : Held :=
  fresh held.record held.modified

theorem current_of (record : Record) (modified : Bool) : (of record modified).Current :=
  ⟨rfl, nofun, nofun⟩

-- Whatever becomes active, the full list does not depend on it.
theorem Current.withActive (h : held.Current) (hd : Blob.decode blob = .ok grants) :
    (Session.withActive held blob grants).Current := by
  refine ⟨h.apart, ?_, fun full hf => ?_⟩
  · rintro _ ⟨⟩
    exact hd
  · have ⟨text, ht⟩ := Option.isSome_iff_exists.mp h.apart
    have he : Blob.decode held.record.full = .ok full := h.full full hf
    rw [Record.full, ht] at he
    rw [Record.full, Session.withActive, ht]
    exact he

end Held

namespace Session

def State.uncached : State → State
  | .held held => .held held.uncached
  | state => state

def uncached (session : Session) : Session :=
  { session with state := session.state.uncached }

def Current (session : Session) : Prop :=
  ∀ held, session.state = .held held → held.Current

theorem uncached_of_held (hs : session.state = .held held) :
    session.uncached.state = .held held.uncached := by
  rw [uncached, hs]
  rfl

end Session

-- What a session does that keeps no decoded lists.
namespace Uncached

def activeGrants : Action (List Grant) := do
  Session.decoded (← Session.held).record.user.perms

def fullGrants : Action (List Grant) := do
  Session.decoded (← Session.held).record.full

def put (record : Record) (blob : String) : Action Unit :=
  Session.setState (.held (.fresh { record with user := { record.user with perms := blob } } true))

def activate (grants : List Grant) : Action Unit := do
  put (← Session.held).record (Blob.encode (compacted grants))

def restrict (grants : List Grant) (store : Bool) : Action Unit := do
  let full ← fullGrants
  match grants.find? fun grant => !permitted full grant.asRequest with
  | some grant => throw (Session.forbidden grant)
  | none =>
    activate grants
    if store then Session.write false

def restore : Action Unit := do
  let _ ← fullGrants
  let held ← Session.held
  put held.record held.record.full

def can (action objectType path definition : String) : Action Bool :=
  return permitted (← fullGrants) (.of action objectType path definition)

def isActive (action objectType path definition : String) : Action Bool :=
  return permitted (← activeGrants) (.of action objectType path definition)

-- All other operations make no use of the lists.
def ask : (operation : Operation) → Action operation.Answer
  | .activeGrants => activeGrants
  | .fullGrants => fullGrants
  | .activate grants => activate grants
  | .restrict grants store => restrict grants store
  | .restore => restore
  | .can action objectType path definition => can action objectType path definition
  | .isActive action objectType path definition => isActive action objectType path definition
  | operation => operation.ask

end Uncached

-- An answer with the session that is left behind, once with lists that were kept and once without.
structure Agrees (post : α → Session → Prop) (result other : Except AccessError α × Session) :
    Prop where
  answer : result.1 = other.1
  session : result.2.uncached = other.2
  current : result.2.Current
  post : ∀ value, result.1 = .ok value → post value result.2

-- An action does what another one does in a session that keeps no lists.
def Tracks (post : α → Session → Prop) (session : Session) (action other : Action α) : Prop :=
  (Session.perform action session).Matches (Agrees post) (Session.perform other session.uncached)

namespace Tracks

variable {post : α → Session → Prop} {action other : Action α}

theorem pure {value : α} (hc : session.Current) (hp : post value session) :
    Tracks post session (pure value) (pure value) :=
  .done ⟨rfl, rfl, hc, fun _ he => Except.ok.inj he ▸ hp⟩

theorem throw {error : AccessError} (hc : session.Current) :
    Tracks post session (throw error) (throw error) :=
  .done ⟨rfl, rfl, hc, nofun⟩

theorem send (command : Command) (hc : session.Current) :
    Tracks (fun _ _ => True) session (Session.send command) (Session.send command) := by
  refine Script.Matches.send fun reply => ?_
  cases reply
  case error cause => exact .done ⟨rfl, rfl, hc, nofun⟩
  case ok reply => exact .done ⟨rfl, rfl, hc, fun _ _ => trivial⟩

theorem setState {state : Session.State} (hc : ∀ held, state = .held held → held.Current) :
    Tracks (fun _ _ => True) session (Session.setState state) (Session.setState state.uncached) :=
  .done ⟨rfl, rfl, hc, fun _ _ => trivial⟩

theorem bind {post' : β → Session → Prop} {f g : α → Action β} (h : Tracks post session action other)
    (hf : ∀ value next, next.Current → post value next → Tracks post' next (f value) (g value)) :
    Tracks post' session (action >>= f) (other >>= g) := by
  rw [Tracks, Session.perform_bind, Session.perform_bind]
  refine Script.Matches.bind h fun result other ha => ?_
  obtain ⟨answer, next⟩ := result
  obtain ⟨_, _⟩ := other
  obtain ⟨rfl, rfl, hc, hp⟩ := ha
  cases answer
  case error => exact .done ⟨rfl, rfl, hc, nofun⟩
  case ok value => exact hf value next hc (hp value rfl)

theorem any (h : Tracks post session action other) :
    Tracks (fun _ _ => True) session action other :=
  Script.Matches.mono h fun _ _ ha => ⟨ha.answer, ha.session, ha.current, fun _ _ => trivial⟩

theorem get_bind {f g : Session → Action α}
    (h : Tracks post session (f session) (g session.uncached)) :
    Tracks post session (get >>= f) (get >>= g) :=
  h

-- The record in memory is the same for both, with the lists that were kept or without them.
theorem held_bind_of_held {f g : Held → Action α} (hs : session.state = .held held)
    (h : Tracks post session (f held) (g held.uncached)) :
    Tracks post session (Session.held >>= f) (Session.held >>= g) := by
  rw [Tracks, Session.perform_bind, Session.perform_bind, Session.perform_held hs,
    Session.perform_held (Session.uncached_of_held hs), pure_bind, pure_bind]
  exact h

theorem present_bind {f g : Held → Action α} (hc : session.Current)
    (h : ∀ held, session.state = .held held → Tracks post session (f held) (g held.uncached)) :
    Tracks post session (Session.present >>= f) (Session.present >>= g) := by
  obtain ⟨token, lifetime, refresh, state⟩ := session
  cases state
  case unloaded | removed => exact .done ⟨rfl, rfl, hc, nofun⟩
  case held held => exact h held rfl

theorem expireBoth {user : String} {seconds : UInt64} (hc : session.Current) :
    Tracks (fun _ _ => True) session (Session.expireBoth user seconds)
      (Session.expireBoth user seconds) := by
  refine get_bind (bind (send _ hc) fun _ next hc _ => bind (send _ hc) fun _ next hc _ => ?_)
  exact pure hc trivial

theorem persistBoth {user : String} (hc : session.Current) :
    Tracks (fun _ _ => True) session (Session.persistBoth user) (Session.persistBoth user) := by
  refine get_bind (bind (send _ hc) fun _ next hc _ => bind (send _ hc) fun _ next hc _ => ?_)
  exact pure hc trivial

theorem refreshFor {user : String} {never : Bool} (hc : session.Current) :
    Tracks (fun _ _ => True) session (Session.refreshFor user never)
      (Session.refreshFor user never) := by
  refine get_bind ?_
  cases never
  case false => exact expireBoth hc
  case true => exact persistBoth hc

theorem ensureNotRemoved (hc : session.Current) :
    Tracks (fun _ _ => True) session Session.ensureNotRemoved Session.ensureNotRemoved := by
  obtain ⟨token, lifetime, refresh, state⟩ := session
  cases state
  case removed => exact throw hc
  case unloaded | held => exact pure hc trivial

theorem fetch {token : String} (hc : session.Current) :
    Tracks (fun _ _ => True) session (Session.fetch token) (Session.fetch token) := by
  refine bind (send _ hc) fun reply next hc _ => ?_
  split
  · exact throw hc
  · split
    · exact throw hc
    · exact pure hc trivial

theorem load (hc : session.Current) :
    Tracks (fun _ _ => True) session Session.load Session.load := by
  refine bind (ensureNotRemoved hc) fun _ next hc _ => get_bind ?_
  refine bind (fetch hc) fun record after hc _ => ?_
  refine bind (setState fun held he => ?_) fun _ last hc _ => ?_
  · cases he
    exact Held.current_of record false
  · -- both sessions are set up to do the same
    cases hr : next.refreshOnLoad
    case false => simpa [Session.uncached, hr] using pure hc trivial
    case true => simpa [Session.uncached, hr] using refreshFor hc

-- Whether the record is loaded first or was in memory before.
theorem held_bind {f g : Held → Action α} (hc : session.Current)
    (h : ∀ next held, next.Current → next.state = .held held →
      Tracks post next (f held) (g held.uncached)) :
    Tracks post session (Session.held >>= f) (Session.held >>= g) := by
  cases hs : session.state
  case held held => exact held_bind_of_held hs (h session held hc hs)
  case removed =>
    have hu : session.uncached.state = .removed := by
      rw [Session.uncached, hs]
      rfl
    rw [Tracks, Session.perform_bind, Session.perform_bind, Session.perform_held_of_removed hs,
      Session.perform_held_of_removed hu]
    exact .done ⟨rfl, rfl, hc, nofun⟩
  case unloaded =>
    have hl : Tracks post session ((Session.load >>= fun _ => Session.present) >>= f)
        ((Session.load >>= fun _ => Session.present) >>= g) := by
      rw [bind_assoc, bind_assoc]
      exact bind (load hc) fun _ next hc _ => present_bind hc fun held => h next held hc
    obtain ⟨token, lifetime, refresh, state⟩ := session
    cases hs
    exact hl

-- A list that is decoded is kept with the record it belongs to.
theorem decoded {blob : String} {keep : List Grant → Held} {post : List Grant → Session → Prop}
    (hc : session.Current) (hs : session.state = .held held)
    (hk : ∀ grants, Blob.decode blob = .ok grants →
      (keep grants).uncached = held.uncached ∧ (keep grants).Current)
    (hp : ∀ grants next, Blob.decode blob = .ok grants → next.state = .held (keep grants) →
      post grants next) :
    Tracks post session (do
      let grants ← Session.decoded blob
      Session.setState (.held (keep grants))
      return grants) (Session.decoded blob) := by
  rw [Tracks, Session.perform_bind, Session.perform_decoded, Session.perform_decoded, pure_bind,
    Session.granted]
  cases hd : Blob.decode blob
  case error => exact .done ⟨rfl, rfl, hc, by simp⟩
  case ok grants =>
    obtain ⟨hu, hg⟩ := hk grants hd
    refine Script.Matches.done ⟨rfl, ?_, ?_, ?_⟩
    · rw [Session.uncached, Session.uncached, hs]
      exact congrArg (Session.mk _ _ _ <| .held ·) hu
    · rintro _ ⟨⟩
      exact hg
    · rintro _ ⟨⟩
      exact hp grants _ hd rfl

-- A list that was kept is the one that would be decoded.
theorem known {blob : String} {grants : List Grant} {post : List Grant → Session → Prop}
    (hc : session.Current) (hd : Blob.decode blob = .ok grants) (hp : post grants session) :
    Tracks post session (Pure.pure grants) (Session.decoded blob) := by
  rw [Tracks, Session.perform_decoded, Session.granted, hd]
  exact pure hc hp

theorem activeGrants (hc : session.Current) :
    Tracks (fun _ _ => True) session Session.activeGrants Uncached.activeGrants := by
  refine held_bind hc fun next held hc hs => ?_
  have hh := hc held hs
  split
  case h_1 grants hk => exact known hc (hh.active grants hk) trivial
  case h_2 =>
    refine decoded hc hs (fun grants hd => ⟨rfl, hh.apart, ?_, hh.full⟩) fun _ _ _ _ => trivial
    rintro _ ⟨⟩
    exact hd

-- The full list as the record in memory has it.
def Full (grants : List Grant) (session : Session) : Prop :=
  ∃ held, session.state = .held held ∧ Blob.decode held.record.full = .ok grants

theorem fullGrants (hc : session.Current) :
    Tracks Full session Session.fullGrants Uncached.fullGrants := by
  refine held_bind hc fun next held hc hs => ?_
  have hh := hc held hs
  split
  case h_1 grants hk => exact known hc (hh.full grants hk) ⟨held, hs, hh.full grants hk⟩
  case h_2 =>
    refine decoded hc hs (fun grants hd => ⟨rfl, hh.apart, hh.active, ?_⟩) fun grants last hd hl =>
      ⟨_, hl, hd⟩
    rintro _ ⟨⟩
    exact hd

theorem setActive {blob : String} {grants : List Grant} (hh : held.Current)
    (hd : Blob.decode blob = .ok grants) : Tracks (fun _ _ => True) session
      (Session.setState (.held (Session.withActive held blob grants)))
      (Uncached.put held.record blob) :=
  setState fun _ he => Session.State.held.inj he ▸ hh.withActive hd

theorem activate {grants : List Grant} (hc : session.Current) :
    Tracks (fun _ _ => True) session (Session.activate grants) (Uncached.activate grants) :=
  held_bind hc fun _ held hc hs => setActive (hc held hs) (Blob.decode_encode _)

theorem write {never : Bool} (hc : session.Current) :
    Tracks (fun _ _ => True) session (Session.write never) (Session.write never) := by
  refine held_bind hc fun next held hc hs => get_bind ?_
  have hh := hc held hs
  dsimp only [Session.uncached, Held.uncached, Held.fresh]
  refine bind (send (.setex ..) hc) fun _ _ hc _ => bind (send _ hc) fun _ _ hc _ =>
    bind (send _ hc) fun _ _ hc _ => ?_
  have hd : ∀ other, Session.State.held { held with modified := false } = .held other →
      other.Current := fun _ he => Session.State.held.inj he ▸ ⟨hh.apart, hh.active, hh.full⟩
  cases never
  case false => exact bind (send _ hc) fun _ _ _ _ => setState hd
  case true => exact bind (persistBoth hc) fun _ _ _ _ => setState hd

theorem restore (hc : session.Current) :
    Tracks (fun _ _ => True) session Session.restore Uncached.restore := by
  refine bind (fullGrants hc) fun grants next hc ⟨held, hs, hd⟩ => ?_
  exact held_bind_of_held hs (setActive (hc held hs) hd)

theorem restrict {grants : List Grant} {store : Bool} (hc : session.Current) :
    Tracks (fun _ _ => True) session (Session.restrict grants store)
      (Uncached.restrict grants store) := by
  refine bind (fullGrants hc) fun full next hc _ => ?_
  generalize grants.find? (fun grant => !permitted full grant.asRequest) = denied
  cases denied
  case some grant => exact throw hc
  case none =>
    refine bind (activate hc) fun _ last hc _ => ?_
    cases store
    case false => exact pure hc trivial
    case true => exact write hc

theorem record (hc : session.Current) :
    Tracks (fun _ _ => True) session Session.record Session.record :=
  held_bind hc fun _ _ hc _ => pure hc trivial

theorem user (hc : session.Current) :
    Tracks (fun _ _ => True) session Session.user Session.user :=
  held_bind hc fun _ _ hc _ => pure hc trivial

theorem can {action objectType path definition : String} (hc : session.Current) :
    Tracks (fun _ _ => True) session (Session.can action objectType path definition)
      (Uncached.can action objectType path definition) :=
  bind (fullGrants hc) fun _ _ hc _ => pure hc trivial

theorem isActive {action objectType path definition : String} (hc : session.Current) :
    Tracks (fun _ _ => True) session (Session.isActive action objectType path definition)
      (Uncached.isActive action objectType path definition) :=
  bind (activeGrants hc) fun _ _ hc _ => pure hc trivial

theorem remaining (hc : session.Current) :
    Tracks (fun _ _ => True) session Session.remaining Session.remaining :=
  bind (ensureNotRemoved hc) fun _ _ hc _ => get_bind (send (.ttl _) hc)

theorem setLifetime {seconds : UInt64} (hc : session.Current) :
    Tracks (fun _ _ => True) session (Session.setLifetime seconds) (Session.setLifetime seconds) :=
  bind (user hc) fun _ _ hc _ => expireBoth hc

theorem refresh {never : Bool} (hc : session.Current) :
    Tracks (fun _ _ => True) session (Session.refresh never) (Session.refresh never) :=
  bind (user hc) fun _ _ hc _ => refreshFor hc

theorem save {never : Bool} (hc : session.Current) :
    Tracks (fun _ _ => True) session (Session.save never) (Session.save never) := by
  refine held_bind hc fun next held hc hs => ?_
  cases hm : held.modified
  case false => simpa [Held.uncached, Held.fresh, hm] using refresh hc
  case true => simpa [Held.uncached, Held.fresh, hm] using write hc

theorem remove (hc : session.Current) :
    Tracks (fun _ _ => True) session Session.remove Session.remove := by
  refine bind (user hc) fun name next hc _ => get_bind ?_
  refine bind (send _ hc) fun _ _ hc _ => bind (send _ hc) fun _ _ _ _ => ?_
  exact setState nofun

theorem intoRecord (hc : session.Current) :
    Tracks (fun _ _ => True) session Session.intoRecord Session.intoRecord := by
  refine held_bind hc fun next held hc hs => get_bind ?_
  simp only [hs, Session.uncached_of_held hs]
  exact pure hc trivial

end Tracks

theorem Operation.tracks (operation : Operation) (hc : session.Current) :
    Tracks (fun _ _ => True) session operation.ask (Uncached.ask operation) := by
  cases operation
  case load => exact .load hc
  case record => exact .record hc
  case user => exact .user hc
  case activeGrants => exact .activeGrants hc
  case fullGrants => exact (Tracks.fullGrants hc).any
  case activate => exact .activate hc
  case restrict => exact .restrict hc
  case restore => exact .restore hc
  case can => exact .can hc
  case isActive => exact .isActive hc
  case remaining => exact .remaining hc
  case setLifetime => exact .setLifetime hc
  case refresh => exact .refresh hc
  case save => exact .save hc
  case remove => exact .remove hc
  case intoRecord => exact .intoRecord hc

namespace Session

-- Sessions that keep the same record, one of them together with lists that it stands for.
def Concurs (result other : List Operation.Result × Session) : Prop :=
  result.1 = other.1 ∧ result.2.uncached = other.2 ∧ result.2.Current

theorem matches_converse (operations : List Operation) (hc : session.Current) :
    (converse Operation.ask operations session).Matches Concurs
      (converse Uncached.ask operations session.uncached) := by
  induction operations generalizing session
  case nil => exact .done ⟨rfl, rfl, hc⟩
  case cons operation operations hi =>
    refine Script.Matches.bind (operation.tracks hc) fun ⟨answer, next⟩ ⟨_, _⟩ ha => ?_
    obtain ⟨rfl, rfl, hn, _⟩ := ha
    refine Script.Matches.bind (hi hn) fun ⟨results, last⟩ ⟨_, _⟩ hr => ?_
    obtain ⟨rfl, rfl, hl⟩ := hr
    exact .done ⟨rfl, rfl, hl⟩

-- The ways in which a session begins.
inductive Begun : Session → Prop
  | created {token config session} (h : create token config = .ok session) : Begun session
  | started {token config session exchanges}
    (h : (start token config).Hears exchanges (.ok session)) : Begun session
  | established {token record config session exchanges}
    (h : (establish token record config).Hears exchanges (.ok session)) : Begun session

theorem hears_launch {action : Action Unit} {launched : Except AccessError Session}
    {next : Session} (h : (launch action launched).Hears exchanges (.ok next)) : ∃ session, launched = .ok session ∧
      (perform action session).Hears exchanges (.ok (), next) := by
  obtain ⟨_, _, _, he⟩ | ⟨session, ⟨answer, last⟩, rfl, hp, he⟩ := hears_launch_cases h
  · cases he
  · cases answer
    case error => cases he
    case ok =>
      cases he
      exact ⟨session, rfl, hp⟩

theorem current_of_launch {action : Action Unit} {launched : Except AccessError Session}
    {next : Session} (hc : ∀ session, launched = .ok session → session.Current)
    (ha : ∀ {session}, session.Current → Tracks (fun _ _ => True) session action action)
    (h : (launch action launched).Hears exchanges (.ok next)) : next.Current := by
  obtain ⟨session, hl, hp⟩ := hears_launch h
  have ⟨_, _, hr⟩ := (ha (hc session hl)).hears hp
  exact hr.current

theorem current_of_create {token : String} {config : Config}
    (h : create token config = .ok session) : session.Current :=
  fun _ hs => nomatch (create_eq h).2.symm.trans hs

theorem Begun.current (h : session.Begun) : session.Current := by
  cases h
  case created h => exact current_of_create h
  case started h => exact current_of_launch (fun _ hs => current_of_create hs) Tracks.load h
  case established token record config _ h =>
    refine current_of_launch (fun session hs => ?_) Tracks.write h
    cases hc : create token config
    case error => exact nomatch hc ▸ hs
    case ok =>
      rw [hc] at hs
      cases hs
      rintro _ ⟨⟩
      exact Held.current_of _ true

-- At any time the lists that a session keeps are those that the texts in its record stand for, and
-- whatever it is asked for then, it sends the commands and gives the answers of a session that keeps
-- none and decodes these texts whenever it needs a list.
theorem answered_as_uncached {operations : List Operation} {results : List Operation.Result}
    {last : Session} (hb : session.Begun)
    (h : (converse Operation.ask operations session).Hears exchanges (results, last)) :
    last.Current ∧ ∀ more, Prod.map id uncached <$> converse Operation.ask more last =
      converse Uncached.ask more last.uncached := by
  have ⟨other, _, _, _, hl⟩ := (matches_converse operations hb.current).hears h
  refine ⟨hl, fun more => ?_⟩
  have he : Prod.map id uncached <$> converse Operation.ask more last =
      id <$> converse Uncached.ask more last.uncached :=
    (matches_converse more hl).map_eq fun _ _ ha => Prod.ext ha.1 ha.2.1
  rwa [id_map] at he

-- A record was just put into the cache when other grants become active; these are kept.
theorem uncached_after_activation :
    let grants : List Grant := [⟨1, 1, "ssh", "Node", "a//*", 1, "*"⟩]
    let narrowed : List Grant := compacted [⟨2, 1, "ssh", "Node", "a//B", 1, "view"⟩]
    let record : Record := { Record.create "u" grants with uid := "t" }
    let held : Held := { Held.of record true with modified := false }
    let session : Session := ⟨"t", 3600, true, .held held⟩
    let last : Session :=
      { session with state := .held (withActive held (Blob.encode narrowed) narrowed) }
    session.Begun ∧ last.Current ∧ ∀ more, Prod.map id uncached <$> converse Operation.ask more last =
      converse Uncached.ask more last.uncached := by
  intro grants narrowed record held session last
  let config : Config := { connected := true }
  have he : (establish "t" record config).Hears [
      ⟨.setex (Key.record "t") 3600 (Held.of record true).record.encode, .ok ()⟩,
      ⟨.lrem (Key.index "u") 0 "t", .ok 0⟩, ⟨.lpush (Key.index "u") "t", .ok 1⟩,
      ⟨.expire (Key.index "u") 3600, .ok true⟩] (.ok session) :=
    .send _ (.send _ (.send _ (.send _ .done)))
  have ha : (converse Operation.ask [.activate [⟨2, 1, "ssh", "Node", "a//B", 1, "view"⟩]]
      session).Hears [] ([⟨.activate _, .ok ()⟩], last) := .done
  exact ⟨.established he, answered_as_uncached (.established he) ha⟩

end Session
end Entitlement
