import Entitlement.Proofs.Session.Action
/-!
Sessions of one token whose record keeps a property: how the property is carried along an action,
and through the commands by which a session tends to its record and to the index of its user.
-/

namespace Entitlement

-- A session of a token whose record, if there is one in memory, has a property.
structure Session.Sane (token : String) (inv : Held → Prop) (session : Session) : Prop where
  token : session.token = token
  held : ∀ held, session.state = .held held → inv held

-- There is a record in memory, and it has a property.
def Session.Holding (p : Held → Prop) (session : Session) : Prop :=
  ∃ held, session.state = .held held ∧ p held

-- Begun on a sane session with `pre`, an action leaves a sane session, with `post` if it succeeds.
def Keeps (contract : Contract) (token : String) (inv : Held → Prop) (pre : Session → Prop)
    (action : Action α) (post : α → Session → Prop) : Prop :=
  ∀ session, session.Sane token inv → pre session → Ensures contract action
    (fun answer after => after.Sane token inv ∧ ∀ value, answer = .ok value → post value after)
    session

namespace Keeps

variable {α β : Type} {contract : Contract} {token : String} {inv : Held → Prop}
  {pre : Session → Prop} {post : α → Session → Prop}

theorem pure (h : ∀ session, pre session → post value session) :
    Keeps contract token inv pre (pure value : Action α) post := by
  intro session hs hp
  refine Ensures.pure_iff.mpr ⟨hs, ?_⟩
  rintro _ ⟨⟩
  exact h session hp

theorem skip : Keeps contract token inv pre (Pure.pure value : Action α) fun _ => pre :=
  pure fun _ h => h

theorem throw : Keeps contract token inv pre (throw error : Action α) post := by
  intro session hs hp
  exact Ensures.throw_iff.mpr ⟨hs, nofun⟩

theorem get : Keeps contract token inv pre get fun value session =>
    value = session ∧ value.Sane token inv ∧ pre session := by
  intro session hs hp
  refine Ensures.get_iff.mpr ⟨hs, ?_⟩
  rintro _ ⟨⟩
  exact ⟨rfl, hs, hp⟩

-- What is known before an action can be used to tell what it does.
theorem given {p : Prop} {action : Action α} (h : ∀ session, session.Sane token inv → pre session → p)
    (hk : p → Keeps contract token inv pre action post) :
    Keeps contract token inv pre action post :=
  fun session hs hp => hk (h session hs hp) session hs hp

theorem bind {action : Action α} {f : α → Action β} {post' : β → Session → Prop}
    (ha : Keeps contract token inv pre action post)
    (hf : ∀ value, Keeps contract token inv (post value) (f value) post') :
    Keeps contract token inv pre (action >>= f) post' := by
  intro session hs hp
  refine Ensures.bind_iff.mpr ((ha session hs hp).mono fun answer after h => ?_)
  cases answer
  case error error => exact ⟨h.1, nofun⟩
  case ok value => exact hf value after h.1 (h.2 value rfl)

theorem send (h : ∀ session, session.Sane token inv → pre session → contract.sends command) :
    Keeps contract token inv pre (Session.send command) fun reply session =>
      pre session ∧ contract.replies command (.ok reply) := by
  intro session hs hp
  refine Ensures.send_iff.mpr ⟨h session hs hp, fun reply hr => ?_⟩
  match reply with
  | .error cause => exact ⟨hs, nofun⟩
  | .ok reply =>
    refine ⟨hs, ?_⟩
    rintro _ ⟨⟩
    exact ⟨hp, hr⟩

theorem setState {state : Session.State} (hi : ∀ session held, session.Sane token inv → pre session →
    state = .held held → inv held) :
    Keeps contract token inv pre (Session.setState state) fun _ session => session.state = state := by
  intro session hs hp
  refine Ensures.setState_iff.mpr ⟨⟨hs.token, fun held => hi session held hs hp⟩, ?_⟩
  exact fun _ _ => rfl

theorem mono {pre' : Session → Prop} {post' : α → Session → Prop} {action : Action α}
    (h : Keeps contract token inv pre action post) (hp : ∀ session, pre' session → pre session)
    (hq : ∀ value session, post value session → post' value session) :
    Keeps contract token inv pre' action post' := by
  intro session hs hp'
  apply (h session hs (hp session hp')).mono
  intro answer after ha
  exact ⟨ha.1, fun value hv => hq value after (ha.2 value hv)⟩

theorem outcome {action : Action α} {upheld : Store → Prop}
    (h : Keeps contract token inv pre action post) (hc : contract.UpheldBy upheld)
    (hs : session.Sane token inv) (hp : pre session) (refuse : Script.Refusal) (now : Instant)
    (sent : List Command) (cache : Store) (hu : upheld cache) :
    let outcome := Session.outcome action session refuse now sent cache
    outcome.value.2.Sane token inv ∧ upheld outcome.store ∧
      ∀ value, outcome.value.1 = .ok value → post value outcome.value.2 := by
  have ho := (h session hs hp).run hc refuse now sent cache hu
  exact ⟨ho.1.1, ho.2, ho.1.2⟩

theorem ask (h : contract.sends command) :
    Keeps contract token inv pre (Session.send command) fun _ => pre :=
  (send fun _ _ _ => h).mono (fun _ hp => hp) fun _ _ hp => hp.1

theorem ensureNotRemoved :
    Keeps contract token inv pre Session.ensureNotRemoved fun _ => pre := by
  refine .bind .get fun session => ?_
  split
  · exact .throw
  · exact .pure fun _ h => h.2.2

theorem held : Keeps contract token inv (·.Holding p) Session.held
    fun value session => session.state = .held value ∧ p value := by
  intro session hs ⟨value, hv, hp⟩
  rw [Ensures, Session.perform_held hv, Script.meets_pure]
  refine ⟨hs, ?_⟩
  rintro _ ⟨⟩
  exact ⟨hv, hp⟩

-- The record in memory is exchanged for one that has the property too.
theorem exchange {value next : Held} (h : inv value → pre' → inv next) :
    Keeps contract token inv (fun session => session.state = .held value ∧ pre')
      (Session.setState (.held next)) fun _ session => session.state = .held next := by
  refine .setState ?_
  rintro session _ hs ⟨hv, hp⟩ ⟨⟩
  exact h (hs.held value hv) hp

end Keeps

-- A command about a token or the index of a user that writes no record.
def Command.Tends (token user : String) (command : Command) : Prop :=
  (command.key = Key.record token ∨ command.key = Key.index user) ∧
    ∀ ttl data, command ≠ .setex (Key.record token) ttl data

namespace Keeps

variable {contract : Contract} {token user : String} {inv : Held → Prop} {pre : Session → Prop}

theorem expireBoth (hc : ∀ command, command.Tends token user → contract.sends command)
    (seconds : UInt64) :
    Keeps contract token inv pre (Session.expireBoth user seconds) fun _ => pre := by
  refine .bind .get fun session => .given (fun _ _ h => h.2.1.token) fun ht => ?_
  exact .bind (.ask (hc _ ⟨.inl (ht ▸ rfl), nofun⟩)) fun _ => .bind (.ask (hc _ ⟨.inr rfl, nofun⟩))
    fun _ => .pure fun _ h => h.2.2

theorem persistBoth (hc : ∀ command, command.Tends token user → contract.sends command) :
    Keeps contract token inv pre (Session.persistBoth user) fun _ => pre := by
  refine .bind .get fun session => .given (fun _ _ h => h.2.1.token) fun ht => ?_
  exact .bind (.ask (hc _ ⟨.inl (ht ▸ rfl), nofun⟩)) fun _ => .bind (.ask (hc _ ⟨.inr rfl, nofun⟩))
    fun _ => .pure fun _ h => h.2.2

theorem refreshFor (hc : ∀ command, command.Tends token user → contract.sends command)
    (never : Bool) : Keeps contract token inv pre (Session.refreshFor user never) fun _ => pre := by
  refine .bind .get fun session => ?_
  cases never
  case false => exact (expireBoth hc _).mono (fun _ h => h.2.2) fun _ _ h => h
  case true => exact (persistBoth hc).mono (fun _ h => h.2.2) fun _ _ h => h

-- Whatever was in memory before, it is the record that was found now.
theorem load (hg : contract.sends (.get (Key.record token)))
    (hl : ∀ {bytes record}, contract.replies (.get (Key.record token)) (.ok (some bytes)) →
      Record.decode? bytes = some record → inv (.of record false))
    (hc : ∀ session (record : Record), pre session → session.refreshOnLoad = true →
      inv (.of record false) → ∀ command : Command, command.Tends token record.user.id →
        contract.sends command) :
    Keeps contract token inv pre Session.load fun _ session =>
      session.Holding fun held => held.modified = false := by
  have hf : Keeps contract token inv (fun _ => True) (Session.fetch token)
      fun record _ => inv (.of record false) := by
    refine .bind (.send fun _ _ _ => hg) fun reply => ?_
    split
    · exact .throw
    · split
      case h_1 => exact .throw
      case h_2 bytes record hd => exact .pure fun _ h => hl h.2 hd
  refine .bind .ensureNotRemoved fun _ => .bind .get fun session => ?_
  refine .given (fun _ _ h => h.2.1.token) fun ht => .given (fun _ _ h => h.1.symm ▸ h.2.2)
    fun (hp : pre session) => ?_
  rw [ht]
  refine .bind (hf.mono (fun _ _ => trivial) fun _ _ h => h) fun record => ?_
  refine .given (fun _ _ h => h) fun hi => ?_
  have hs : Keeps contract token inv (fun _ => inv (.of record false))
      (Session.setState (.held (.of record false))) fun _ session =>
        session.Holding fun held => held.modified = false := by
    refine (Keeps.setState ?_).mono (fun _ h => h) fun _ _ h => ⟨_, h, rfl⟩
    rintro _ _ _ hi ⟨⟩
    exact hi
  refine .bind hs fun _ => ?_
  split
  case isTrue hr => exact .refreshFor (hc session record hp hr hi) _
  case isFalse => exact .pure fun _ h => h

theorem remaining (h : contract.sends (.ttl (Key.record token))) :
    Keeps contract token inv pre Session.remaining fun _ => pre := by
  refine .bind .ensureNotRemoved fun _ => .bind .get fun session => ?_
  refine .given (fun _ _ h => h.2.1.token) fun ht => ?_
  exact (Keeps.ask (ht ▸ h)).mono (fun _ h => h.2.2) fun _ _ h => h

theorem intoRecord : Keeps contract token inv (·.Holding fun _ => True) Session.intoRecord
    fun record session => session.Holding fun held => held.record = record := by
  refine .bind .held fun _ => .bind .get fun session => ?_
  split
  case h_1 held hs => exact .pure fun _ h => ⟨held, h.1 ▸ hs, rfl⟩
  case h_2 => exact .throw

end Keeps

-- What allows a session to load its record, to write it and to say how long it stays.
structure Tending (contract : Contract) (token : String) (inv : Held → Prop) : Prop where
  sends : inv held → command.Tends token held.record.user.id → contract.sends command
  writes : inv held → ∀ ttl, contract.sends (.setex (Key.record token) ttl held.record.encode)
  saves : inv held → inv { held with modified := false }

namespace Tending

variable {contract : Contract} {token user : String} {inv : Held → Prop} {pre : Session → Prop}
  {p : Held → Prop}

theorem of_holding (t : Tending contract token inv) {session : Session}
    (hs : session.Sane token inv) (hh : session.Holding fun held => held.record.user.id = user) :
    ∀ command : Command, command.Tends token user → contract.sends command := by
  have ⟨held, hs', hu⟩ := hh
  exact fun command hc => t.sends (hs.held held hs') (hu ▸ hc)

theorem load (t : Tending contract token inv) (hg : contract.sends (.get (Key.record token)))
    (hl : ∀ {bytes record}, contract.replies (.get (Key.record token)) (.ok (some bytes)) →
      Record.decode? bytes = some record → inv (.of record false)) :
    Keeps contract token inv pre Session.load fun _ session =>
      session.Holding fun held => held.modified = false :=
  .load hg hl fun _ _ _ _ hi _ => t.sends hi

-- The record is written as it is held; what was known of it stays known.
theorem write (t : Tending contract token inv)
    (hh : Keeps contract token inv pre Session.held
      fun value session => session.state = .held value ∧ p value)
    (hp : ∀ held, p held → p { held with modified := false }) (never : Bool) :
    Keeps contract token inv pre (Session.write never) fun _ session => session.Holding p := by
  refine .bind hh fun value => .bind .get fun session => ?_
  refine .given (fun _ _ h => h.2.1.token) fun ht => ?_
  refine .given (fun _ hs h => hs.held value h.2.2.1) fun hi => ?_
  have hc {command : Command} (h : command.Tends token value.record.user.id) :
      contract.sends command := t.sends hi h
  have hs : Keeps contract token inv (fun after => session = after ∧ session.Sane token inv ∧
      after.state = .held value ∧ p value)
      (Session.send (.setex (Key.record session.token) session.lifetime value.record.encode))
        fun _ after => after.state = .held value ∧ p value :=
    (Keeps.ask (ht ▸ t.writes hi _)).mono (fun _ h => h) fun _ _ h => h.2.2
  have hm : Keeps contract token inv (fun after => after.state = .held value ∧ p value)
      (Session.setState (.held { value with modified := false }))
        fun _ session => session.Holding p := by
    refine .given (fun _ _ h => h.2) fun hv => ?_
    exact (Keeps.exchange fun hi _ => t.saves hi).mono (fun _ h => h) fun _ _ h => ⟨_, h, hp _ hv⟩
  refine .bind hs fun _ => .bind (.ask (hc ⟨.inr rfl, nofun⟩)) fun _ =>
    .bind (.ask (hc ⟨.inr rfl, nofun⟩)) fun _ => ?_
  dsimp only
  split
  · exact .bind (.persistBoth fun _ => hc) fun _ => hm
  · exact .bind (.ask (hc ⟨.inr rfl, nofun⟩)) fun _ => hm

-- The user is the one of the record in memory.
theorem expireBoth (t : Tending contract token inv) (seconds : UInt64) :
    Keeps contract token inv (·.Holding fun held => held.record.user.id = user)
      (Session.expireBoth user seconds) fun _ session => session.Holding fun _ => True :=
  .given (fun _ => t.of_holding) fun hc => (Keeps.expireBoth hc seconds).mono (fun _ h => h)
    fun _ _ ⟨held, hs, _⟩ => ⟨held, hs, trivial⟩

theorem refreshFor (t : Tending contract token inv) (never : Bool) :
    Keeps contract token inv (·.Holding fun held => held.record.user.id = user)
      (Session.refreshFor user never) fun _ session => session.Holding fun _ => True :=
  .given (fun _ => t.of_holding) fun hc => (Keeps.refreshFor hc never).mono (fun _ h => h)
    fun _ _ ⟨held, hs, _⟩ => ⟨held, hs, trivial⟩

theorem erase (t : Tending contract token inv) :
    Keeps contract token inv (·.Holding fun held => held.record.user.id = user) (do
      let session ← get
      let _ ← Session.send (.delete (Key.record session.token))
      let _ ← Session.send (.lrem (Key.index user) 0 session.token)
      Session.setState .removed) fun _ session => session.state = .removed := by
  refine .bind .get fun session => .given (fun _ _ h => h.2.1.token) fun ht => ?_
  refine .given (fun _ hs h => t.of_holding hs h.2.2) fun hc => ?_
  exact .bind (.ask (hc _ ⟨.inl (ht ▸ rfl), nofun⟩)) fun _ =>
    .bind (.ask (hc _ ⟨.inr rfl, nofun⟩)) fun _ => .setState fun _ _ _ _ => nofun

end Tending
end Entitlement
