import Entitlement.Proofs.Session.Loading
/-!
Actions that neither change the record in memory nor write it. Afterwards it is the one from before
or one that was read from the cache meanwhile, and counts as changed in the first case only, if it
did before.
-/

namespace Entitlement

variable {α β : Type} {session next last : Session} {exchanges first more : List Exchange}
  {commands : List Command}

-- Records go through these commands only.
def Command.Conveys : Command → Prop
  | setex .. | get _ => True
  | _ => False

namespace Exchange

-- A record is put into the cache, or it is tried.
def puts : Exchange → Bool
  | ⟨.setex .., _⟩ => true
  | _ => false

theorem idle {exchange : Exchange} (h : ¬exchange.command.Conveys) :
    exchange.puts = false ∧ exchange.found? = none := by
  obtain ⟨command, reply⟩ := exchange
  cases command
  case setex | get => exact absurd trivial h
  all_goals exact ⟨rfl, rfl⟩

end Exchange

namespace Session

def inMemory? (session : Session) : Option Record :=
  match session.state with
  | .held held => some held.record
  | _ => none

theorem inMemory?_of_held {held : Held} (hs : session.state = .held held) :
    session.inMemory? = some held.record := by
  rw [inMemory?, hs]

theorem idle_refreshing (session : Session) (user : String) (never : Bool) :
    ∀ command ∈ session.refreshing user never, ¬command.Conveys := by
  intro command hm
  cases never
  all_goals
    obtain rfl | rfl := List.mem_pair.mp hm
    all_goals exact not_false

theorem idle_arriving (session : Session) (user : String) :
    ∀ command ∈ session.arriving user, ¬command.Conveys := by
  rw [arriving]
  split
  case isTrue => exact session.idle_refreshing user false
  case isFalse => exact List.forall_mem_nil _

end Session

-- What is in memory is from before, or it was read.
def Inherits (session : Session) (exchanges : List Exchange) (next : Session) : Prop :=
  next.inMemory? = session.inMemory? ∨
    ∃ exchange ∈ exchanges, ∃ record, exchange.found? = some record ∧
      next.inMemory? = some (Held.of record false).record

namespace Inherits

theorem trans (h : Inherits session first next) (hn : Inherits next more last) :
    Inherits session (first ++ more) last := by
  obtain hn | ⟨exchange, hm, hf⟩ := hn
  · rw [Inherits, hn]
    refine h.imp_right fun ⟨exchange, hm, hf⟩ => ?_
    exact ⟨exchange, List.mem_append_left _ hm, hf⟩
  · exact .inr ⟨exchange, List.mem_append_right _ hm, hf⟩

end Inherits

structure Quiet (session : Session) (exchanges : List Exchange) (next : Session) : Prop where
  unwritten : ∀ exchange ∈ exchanges, exchange.puts = false
  modified : next.isModified ↔ session.isModified ∧ ∀ exchange ∈ exchanges, exchange.found? = none
  inherits : Inherits session exchanges next

namespace Quiet

theorem silent (hm : next.isModified = session.isModified)
    (hr : next.inMemory? = session.inMemory?) : Quiet session [] next where
  unwritten := List.forall_mem_nil _
  modified := by simp [hm]
  inherits := .inl hr

theorem trans (h : Quiet session first next) (hn : Quiet next more last) :
    Quiet session (first ++ more) last where
  unwritten := List.forall_mem_append.mpr ⟨h.unwritten, hn.unwritten⟩
  modified := by rw [hn.modified, h.modified, List.forall_mem_append, and_assoc]
  inherits := h.inherits.trans hn.inherits

-- Commands that convey no record do not matter.
theorem idle (hc : ∀ exchange ∈ exchanges, ¬exchange.command.Conveys) :
    Quiet session exchanges session where
  unwritten exchange he := (Exchange.idle (hc exchange he)).1
  modified := by simpa using fun _ exchange he => (Exchange.idle (hc exchange he)).2
  inherits := .inl rfl

theorem of_carried {result : Except AccessError Unit × Session}
    (h : Carried session commands last exchanges result)
    (hc : ∀ command ∈ commands, ¬command.Conveys) (hs : result.2 = session) :
    Quiet session exchanges result.2 := by
  rw [hs]
  exact .idle fun exchange he => hc _ (h.mem_commands exchange he)

theorem missed {key : String} {reply : Except StoreError (Command.get key).Reply}
    (hf : Exchange.found? ⟨.get key, reply⟩ = none) :
    Quiet session [⟨.get key, reply⟩] session where
  unwritten := List.forall_mem_singleton.mpr rfl
  modified := by simp [hf]
  inherits := .inl rfl

theorem found {key : String} {reply : Except StoreError (Command.get key).Reply} {record : Record}
    (hf : Exchange.found? ⟨.get key, reply⟩ = some record) :
    Quiet session [⟨.get key, reply⟩] (session.read record) where
  unwritten := List.forall_mem_singleton.mpr rfl
  modified := by simp [hf, Session.read, Session.isModified, Held.of]
  inherits := .inr ⟨_, .head _, record, hf, rfl⟩

theorem of_loads {result : Except AccessError Unit × Session} (h : session.Loads exchanges result) :
    Quiet session exchanges result.2 := by
  cases h
  case rejected => exact .silent rfl rfl
  case missed reply error hr =>
    refine .missed (Option.eq_none_iff_forall_ne_some.mpr fun record hf => ?_)
    exact nomatch hr.symm.trans (Session.told_eq_ok.mpr hf)
  case found reply record exchanges hr hc =>
    have hs : result.2 = session.read record := by cases hc <;> rfl
    exact (Quiet.found (Session.told_eq_ok.mp hr)).trans
      (.of_carried hc (session.idle_arriving record.user.id) hs)

end Quiet

-- Whatever the replies are, an action is quiet, and comes to what is said when it succeeds.
def Quiets (post : α → Session → Prop) (session : Session) (action : Action α) : Prop :=
  ∀ exchanges result, (Session.perform action session).Hears exchanges result →
    Quiet session exchanges result.2 ∧ ∀ value, result.1 = .ok value → post value result.2

namespace Quiets

variable {post : α → Session → Prop} {action : Action α}

theorem pure {value : α} (hp : post value session) : Quiets post session (pure value) := by
  rintro _ _ (_ | _)
  exact ⟨.silent rfl rfl, fun _ he => Except.ok.inj he ▸ hp⟩

theorem throw {error : AccessError} : Quiets post session (throw error) := by
  rintro _ _ (_ | _)
  exact ⟨.silent rfl rfl, nofun⟩

theorem setState {state : Session.State} {post : Unit → Session → Prop}
    (hm : Session.isModified { session with state } = session.isModified)
    (hr : Session.inMemory? { session with state } = session.inMemory?)
    (hp : post () { session with state }) : Quiets post session (Session.setState state) := by
  rintro _ _ (_ | _)
  exact ⟨.silent hm hr, fun _ _ => hp⟩

theorem send {command : Command} (hc : ¬command.Conveys) :
    Quiets (fun _ after => after = session) session (Session.send command) := by
  intro exchanges result h
  change (Script.send command _).Hears exchanges result at h
  obtain _ | ⟨cause | reply, _ | _⟩ := h
  · exact ⟨.idle (List.forall_mem_singleton.mpr hc), nofun⟩
  · exact ⟨.idle (List.forall_mem_singleton.mpr hc), fun _ _ => rfl⟩

theorem any (h : Quiets post session action) : Quiets (fun _ _ => True) session action :=
  fun exchanges result hh => ⟨(h exchanges result hh).1, fun _ _ => trivial⟩

theorem get_bind {f : Session → Action α} (h : Quiets post session (f session)) :
    Quiets post session (get >>= f) :=
  h

-- The first part of an action is quiet: either it fails, or the rest goes on where it ends.
theorem bind_cases {post : α → Session → Prop} {f : α → Action β}
    {result : Except AccessError β × Session} (h : Quiets post session action)
    (hh : (Session.perform (action >>= f) session).Hears exchanges result) :
    (∃ error, result.1 = .error error ∧ Quiet session exchanges result.2) ∨
    ∃ value middle first more, exchanges = first ++ more ∧ Quiet session first middle ∧
      post value middle ∧ (Session.perform (f value) middle).Hears more result := by
  obtain ⟨error, _, rfl, ha⟩ | ⟨value, middle, first, more, rfl, ha, hn⟩ :=
    Session.hears_bind_cases hh
  · exact .inl ⟨error, rfl, (h exchanges _ ha).1⟩
  · obtain ⟨hq, hp⟩ := h first _ ha
    exact .inr ⟨value, middle, first, more, rfl, hq, hp value rfl, hn⟩

theorem bind {post' : β → Session → Prop} {f : α → Action β} (h : Quiets post session action)
    (hf : ∀ value next, post value next → Quiets post' next (f value)) :
    Quiets post' session (action >>= f) := by
  intro exchanges result hh
  obtain ⟨error, he, hq⟩ | ⟨value, middle, first, more, rfl, hq, hp, hn⟩ := h.bind_cases hh
  · exact ⟨hq, fun _ hv => nomatch he.symm.trans hv⟩
  · have ⟨hr, hv⟩ := hf value middle hp more result hn
    exact ⟨hq.trans hr, hv⟩

theorem load : Quiets (fun _ _ => True) session Session.load :=
  fun _ _ h => ⟨.of_loads (Session.loads h), fun _ _ => trivial⟩

theorem present : Quiets (fun held after => after.state = .held held) session Session.present := by
  obtain ⟨token, lifetime, refresh, state⟩ := session
  cases state
  case held held =>
    rintro _ _ (_ | _)
    exact ⟨.silent rfl rfl, fun _ he => Except.ok.inj he ▸ rfl⟩
  case unloaded | removed =>
    rintro _ _ (_ | _)
    exact ⟨.silent rfl rfl, nofun⟩

-- Whether the record is loaded first or was in memory before.
theorem held : Quiets (fun held after => after.state = .held held) session Session.held := by
  obtain ⟨token, lifetime, refresh, state⟩ := session
  cases state
  case held | removed => exact fun exchanges result h => present exchanges result h
  case unloaded =>
    let session : Session := ⟨token, lifetime, refresh, .unloaded⟩
    have hl : Quiets (fun held after => after.state = .held held) session
      (Session.load >>= fun _ => Session.present) := load.bind fun _ _ _ => present
    exact hl

theorem user : Quiets (fun _ after => ∃ held, after.state = .held held) session Session.user :=
  held.bind fun held _ hs => pure ⟨held, hs⟩

theorem decoded {blob : String} :
    Quiets (fun _ after => after = session) session (Session.decoded blob) := by
  rw [Session.decoded]
  split
  · exact pure rfl
  · exact throw

-- It makes no difference which lists were decoded.
theorem remember {held next : Held} (hs : session.state = .held held)
    (hm : next.modified = held.modified) (hr : next.record = held.record) :
    Quiets (fun _ after => after.state = .held next) session (Session.setState (.held next)) :=
  setState (hm.trans (Session.isModified_of_held hs).symm)
    ((congrArg some hr).trans (Session.inMemory?_of_held hs).symm) rfl

theorem record : Quiets (fun _ _ => True) session Session.record :=
  bind held fun _ _ _ => pure trivial

theorem activeGrants : Quiets (fun _ _ => True) session Session.activeGrants := by
  refine held.bind fun held next hs => ?_
  split
  case h_1 => exact pure trivial
  case h_2 =>
    refine decoded.bind fun grants _ he => ?_
    subst he
    exact bind (remember hs rfl rfl) fun _ _ _ => pure trivial

theorem fullGrants : Quiets (fun full after => ∃ held, after.state = .held held ∧
    held.full? = some full) session Session.fullGrants := by
  refine held.bind fun held next hs => ?_
  split
  case h_1 full hf => exact pure ⟨held, hs, hf⟩
  case h_2 =>
    refine decoded.bind fun grants _ he => ?_
    subst he
    exact bind (remember hs rfl rfl) fun _ _ hl => pure ⟨_, hl, rfl⟩

theorem can {action objectType path definition : String} :
    Quiets (fun _ _ => True) session (Session.can action objectType path definition) :=
  bind fullGrants fun _ _ _ => pure trivial

theorem isActive {action objectType path definition : String} :
    Quiets (fun _ _ => True) session (Session.isActive action objectType path definition) :=
  bind activeGrants fun _ _ _ => pure trivial

theorem expireBoth {user : String} {seconds : UInt64} :
    Quiets (fun _ _ => True) session (Session.expireBoth user seconds) :=
  get_bind (bind (send not_false) fun _ _ _ => bind (send not_false) fun _ _ _ => pure trivial)

theorem persistBoth {user : String} :
    Quiets (fun _ _ => True) session (Session.persistBoth user) :=
  get_bind (bind (send not_false) fun _ _ _ => bind (send not_false) fun _ _ _ => pure trivial)

theorem refreshFor {user : String} {never : Bool} :
    Quiets (fun _ _ => True) session (Session.refreshFor user never) := by
  refine get_bind ?_
  cases never
  case false => exact expireBoth
  case true => exact persistBoth

theorem refresh {never : Bool} : Quiets (fun _ _ => True) session (Session.refresh never) :=
  user.bind fun _ _ _ => refreshFor

theorem setLifetime {seconds : UInt64} :
    Quiets (fun _ _ => True) session (Session.setLifetime seconds) :=
  user.bind fun _ _ _ => expireBoth

theorem ensureNotRemoved : Quiets (fun _ _ => True) session Session.ensureNotRemoved := by
  refine get_bind ?_
  split
  · exact throw
  · exact pure trivial

theorem remaining : Quiets (fun _ _ => True) session Session.remaining := by
  refine bind ensureNotRemoved fun _ next _ => get_bind ?_
  have hs : Quiets _ next (Session.send (.ttl (Key.record next.token))) := send not_false
  exact hs.any

theorem intoRecord : Quiets (fun _ _ => True) session Session.intoRecord := by
  refine held.bind fun held next hs => get_bind ?_
  rw [hs]
  exact pure trivial

end Quiets
end Entitlement
