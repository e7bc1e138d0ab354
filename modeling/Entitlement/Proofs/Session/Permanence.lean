import Entitlement.Proofs.Session.Endless
/-!
Identities without an end. One that is stored so stays so whatever is done with it, until a session
that refreshes lifetimes loads it, or a narrowed list is stored: these give it a lifetime. Saving or
refreshing it without an end takes the lifetime away again.
-/

namespace Entitlement

variable {token user : String}

-- Operations that end an identity, or are told to give it a lifetime.
def Operation.Limits : Operation → Prop
  | setLifetime _ | refresh false | save false | remove => True
  | _ => False

-- An identity is worked on, and nobody asks for its end.
structure Event.Unlimited (event : Event) : Prop where
  unrefused : event.refuse = .none
  time : event.now < Instant.last
  established : ∀ user grants config, event.move ≠ .establish user grants config
  operation : ∀ index operation, event.move = .operate index operation → ¬operation.Limits

-- Others do not touch the lifetime of the record, nor put bytes in the place of the index.
def Turn.Unlimited (token user : String) : Turn → Prop
  | .event happened => happened.Unlimited
  | .command sent _ => (sent.Limits → sent.key ≠ Key.record token) ∧
    ∀ ttl data, sent ≠ .setex (Key.index user) ttl data

namespace World

-- A session has done an operation, and it succeeded.
def Did (world : World) (event : Event) (operation : Operation) (session : Session) : Prop :=
  (∃ index, event.move = .operate index operation ∧ world.sessions[index]? = some session) ∧
    (Session.outcome operation.action session event.refuse event.now [] world.cache).value.1 = .ok ()

-- A session that refreshes lifetimes has loaded the record.
def Refreshes (world : World) (token : String) (event : Event) : Prop :=
  ∃ worker, world.Worker (event.move.deed token) worker ∧
    (event.move.deed token).Uses worker .load ∧ worker.refreshOnLoad = true ∧
    (Session.outcome Session.load worker event.refuse event.now [] world.cache).value.1 = .ok ()

def Narrows (world : World) (event : Event) : Prop :=
  ∃ grants session, world.Did event (.restrict grants true) session

-- The record is written without an end, or it is there and its lifetime is taken away.
inductive Renews (world : World) (token : String) (event : Event) : Prop where
  | write {session} (h : world.Did event (.save true) session) (hm : session.isModified = true)
  | save {session data} (h : world.Did event (.save true) session)
    (hg : world.cache.get event.now (Key.record token) = .ok (some data))
  | refresh {session data} (h : world.Did event (.refresh true) session)
    (hg : world.cache.get event.now (Key.record token) = .ok (some data))

-- Since it was established, or last renewed, an identity was given no lifetime.
inductive Lasting (token : String) (start : World) : List Turn → Prop where
  | established : Lasting token start []
  | spared {turns turn} (h : Lasting token start turns)
    (hs : ∀ event, turn = .event event → ¬(start.turns token turns).Refreshes token event ∧
      ¬(start.turns token turns).Narrows event) : Lasting token start (turns ++ [turn])
  | renewed {turns event} (h : (start.turns token turns).Renews token event) :
    Lasting token start (turns ++ [.event event])

structure Owned (token user : String) (world : World) : Prop where
  cache : world.cache.Owned token user
  sessions : ∀ session ∈ world.sessions, session.Owned token user

variable {world : World} {event : Event} {worker last : Session}

namespace Owned

theorem of_worker (h : world.Owned token user)
    (hm : ∀ user grants config, event.move ≠ .establish user grants config)
    (hw : world.Worker (event.move.deed token) worker) : worker.Owned token user := by
  have ⟨move, refuse, now⟩ := event
  cases move
  case create => exact nomatch hw
  case start config =>
    cases hw
    exact Session.owned_fresh token user config
  case establish user grants config => exact absurd rfl (hm user grants config)
  case lookup refresh =>
    cases hw
    exact Session.owned_fresh token user _
  case operate index operation =>
    cases hw
    case operate hs => exact h.sessions _ (List.mem_of_getElem? hs)

theorem step (h : world.Owned token user) (hk : Key.index user ≠ Key.record token)
    (he : event.Unlimited) : (world.step token event).Owned token user := by
  rw [step_eq_after, he.unrefused]
  cases world.course (event.move.deed token) .none event.now
  case inl hi =>
    refine ⟨?_, fun session hm => ?_⟩
    · rw [after, hi.store]
      exact h.cache
    · obtain hm | ⟨other, config, hd, rfl⟩ := hi.sessions session hm
      · exact h.sessions session hm
      · cases hmove : event.move
        all_goals
          rw [hmove] at hd
          cases hd
        exact Session.owned_fresh token user config
  case inr hd =>
    obtain ⟨worker, last, hd⟩ := hd
    have hs : Stage.Owned token user ⟨worker, world.cache, []⟩ :=
      ⟨h.of_worker he.established hd.begins, h.cache⟩
    have hl := hd.steps.owned hs hk
    refine ⟨hl.cache, fun session hm => ?_⟩
    obtain hm | rfl := hd.sessions session hm
    · exact h.sessions session hm
    · exact hl.session

theorem turn {turn : Turn} (h : world.Owned token user) (hk : Key.index user ≠ Key.record token)
    (ht : turn.Unlimited token user) : (world.turn token turn).Owned token user := by
  cases turn
  case event event => exact h.step hk ht
  case command command now =>
    have ⟨hl, hi⟩ := ht
    refine ⟨⟨?_, ?_⟩, h.sessions⟩
    · refine (Contract.guarding_upheld.served h.cache.record ?_).2
      rintro ttl data rfl
      exact absurd rfl (hl trivial)
    · refine (Contract.guarding_upheld.served h.cache.index ?_).2
      intro ttl data hc
      exact hi ttl data hc

theorem turns {turns : List Turn} (h : world.Owned token user)
    (hk : Key.index user ≠ Key.record token) (ht : ∀ turn ∈ turns, turn.Unlimited token user) :
    (world.turns token turns).Owned token user := by
  induction turns generalizing world
  case nil => exact h
  case cons turn turns hi =>
    exact hi (h.turn hk (ht turn List.mem_cons_self)) fun other ho => ht other (.tail _ ho)

end Owned

-- Without a record that could be loaded the cache stays as it is.
theorem store_of_not_loaded {deed : Deed} {now : Instant} (hw : world.Worker deed worker)
    (hu : deed.Uses worker .load)
    (h : ∀ done, (Session.outcome Session.load worker .none now [] world.cache).value.1 ≠ .ok done) :
    (world.outcome deed .none now).store = world.cache := by
  cases hw
  case start token config =>
    rw [outcome]
    cases hc : config.connected
    case false =>
      rw [Session.start_of_not_connected hc]
      rfl
    case true =>
      rw [Session.start_of_connected hc, Session.run_launch]
      exact Session.store_of_not_loaded h
  case establish => cases hu
  case lookup =>
    rw [outcome, Session.run_lookup]
    exact (Session.store_bind_of_failed h).trans (Session.store_of_not_loaded h)
  case operate index operation hs =>
    simp only [outcome, hs]
    by_cases hl : operation = .load
    case pos =>
      subst hl
      exact Session.store_of_not_loaded h
    case neg =>
      cases hu
      case begin hn hr => exact Session.store_of_unloaded (Operation.begins hl hr) hn h
      case operate hp =>
        cases hp
        exact absurd rfl hl

-- The parts of the work that is done when nobody asks for the end of an identity.
theorem part_of_unlimited (he : event.Unlimited)
    (hn : ∀ index grants, event.move ≠ .operate index (.restrict grants true))
    (hu : (event.move.deed token).Uses worker part) :
    part = .load ∨ part = .write true ∨ part = .refresh true := by
  have ⟨move, refuse, now⟩ := event
  cases move
  case create => exact nomatch hu
  case start => cases hu; exact .inl rfl
  case establish user grants config => exact absurd rfl (he.established user grants config)
  case lookup => cases hu; exact .inl rfl
  case operate index operation =>
    have ho : ¬operation.Limits := he.operation index operation rfl
    cases hu
    case begin => exact .inl rfl
    case operate hp =>
      cases hp
      case load => exact .inl rfl
      case restrict grants => exact absurd rfl (hn index grants)
      case setLifetime => exact absurd trivial ho
      case remove => exact absurd trivial ho
      case refresh never =>
        cases never
        case false => exact absurd trivial ho
        case true => exact .inr (.inr rfl)
      case saveModified never _ =>
        cases never
        case false => exact absurd trivial ho
        case true => exact .inr (.inl rfl)
      case saveUnmodified never _ =>
        cases never
        case false => exact absurd trivial ho
        case true => exact .inr (.inr rfl)

theorem cache_of_operate (hm : event.move = .operate index operation)
    (hs : world.sessions[index]? = some session) : (world.step token event).cache =
      (Session.outcome operation.action session event.refuse event.now [] world.cache).store := by
  simp only [step, hm, hs]

-- A narrowed list that could not be stored leaves the cache as it was.
theorem store_of_not_narrowed (hs : Stage.Owned token user ⟨worker, world.cache, []⟩)
    (hk : Key.index user ≠ Key.record token) (he : event.Unlimited)
    (hm : event.move = .operate index (.restrict grants true))
    (hw : world.sessions[index]? = some worker)
    (hl : worker.state = .unloaded → worker.refreshOnLoad = false) (hn : ¬world.Narrows event) :
    (world.outcome (event.move.deed token) .none event.now).store = world.cache := by
  have hc : (world.outcome (event.move.deed token) .none event.now).store =
      (Stage.after ⟨worker, world.cache, []⟩ (Session.restrict grants true) .none
        event.now).cache := by
    simp only [hm, Move.deed, outcome, hw]
    rfl
  refine hc.trans (hs.cache_of_restrict_failed hk hl fun done ho => ?_)
  exact hn ⟨grants, worker, ⟨index, hm, hw⟩, he.unrefused.symm ▸ ho⟩

namespace Owned

variable (h : world.Owned token user) (hk : Key.index user ≠ Key.record token)
  (he : event.Unlimited)
include h hk he

theorem endless_spared (hp : world.cache.Endless (Key.record token))
    (hr : ¬world.Refreshes token event) (hn : ¬world.Narrows event) :
    (world.step token event).cache.Endless (Key.record token) := by
  rw [step_eq_after, he.unrefused, after]
  cases world.course (event.move.deed token) .none event.now
  case inl hi => exact hi.store.symm ▸ hp
  case inr hd =>
    obtain ⟨worker, last, hd⟩ := hd
    have hs : Stage.Owned token user ⟨worker, world.cache, []⟩ :=
      ⟨h.of_worker he.established hd.begins, h.cache⟩
    by_cases hl : (event.move.deed token).Uses worker .load ∧ worker.refreshOnLoad = true
    case pos =>
      have hf : ∀ done, (Session.outcome Session.load worker .none event.now []
          world.cache).value.1 ≠ .ok done :=
        fun _ ho => hr ⟨worker, hd.begins, hl.1, hl.2, he.unrefused.symm ▸ ho⟩
      exact store_of_not_loaded hd.begins hl.1 hf ▸ hp
    case neg =>
      have hl : (event.move.deed token).Uses worker .load → worker.refreshOnLoad = false :=
        fun hu => Bool.eq_false_iff.mpr fun ht => hl ⟨hu, ht⟩
      by_cases hm : ∃ index grants, event.move = .operate index (.restrict grants true)
      case pos =>
        obtain ⟨index, grants, hm⟩ := hm
        have hw : world.sessions[index]? = some worker := by
          have hb := hd.begins
          rw [hm] at hb
          cases hb
          assumption
        have hl : worker.state = .unloaded → worker.refreshOnLoad = false :=
          fun hu => hl (hm ▸ .begin (by simp) hu)
        exact store_of_not_narrowed hs hk he hm hw hl hn ▸ hp
      case neg =>
        have hu : ∀ part, (event.move.deed token).Uses worker part →
            part = .load ∨ part = .write true ∨ part = .refresh true :=
          fun part => part_of_unlimited he fun index grants he => hm ⟨index, grants, he⟩
        exact hs.endless_steps hk he.time hu hd.steps hp hl

theorem endless_renewed (hr : world.Renews token event) :
    (world.step token event).cache.Endless (Key.record token) := by
  have held {operation : Operation} {session : Session} (hd : world.Did event operation session) :
      Stage.Owned token user ⟨session, world.cache, []⟩ := by
    have ⟨⟨index, hm, hs⟩, _⟩ := hd
    exact ⟨h.sessions session (List.mem_of_getElem? hs), h.cache⟩
  have done {operation : Operation} {session : Session} (hd : world.Did event operation session) :
      (world.step token event).cache =
        (Stage.after ⟨session, world.cache, []⟩ operation.action .none event.now).cache := by
    have ⟨⟨index, hm, hs⟩, _⟩ := hd
    rw [cache_of_operate hm hs, he.unrefused]
    rfl
  cases hr
  case write session hd hm =>
    rw [done hd]
    exact (held hd).endless_of_save hk he.time (he.unrefused ▸ hd.2) (.inl hm)
  case save session data hd hg =>
    rw [done hd]
    exact (held hd).endless_of_save hk he.time (he.unrefused ▸ hd.2) (.inr ⟨data, hg⟩)
  case refresh session data hd hg =>
    rw [done hd]
    exact (held hd).endless_of_refresh hk he.time (he.unrefused ▸ hd.2) hg

end Owned

theorem after_establish_of_connected {record : Record} {config : Config} {now : Instant}
    (hc : config.connected = true) :
    world.after (.establish token record config) .none now =
      let outcome := Session.outcome (Session.write config.settings.neverExpires)
        { Session.fresh token config with state := .held (.of { record with uid := token } true) }
        .none now [] world.cache
      ⟨outcome.store,
        world.sessions ++ (outcome.value.1.map fun _ => outcome.value.2).toOption.toList⟩ := by
  simp only [after, outcome, Session.establish_of_connected hc, Session.run_launch]

-- An identity that could be stored belongs to its user.
theorem owned_of_established {record : Record} {config : Config} {now : Instant} {cache : Store}
    (hv : config.settings.neverExpires = true) (hn : now < Instant.last)
    (h : ((Session.establish token record config).run .none now [] cache).value = .ok session) :
    Key.index record.user.id ≠ Key.record token ∧
      ((World.mk cache []).after (.establish token record config) .none now).Owned token
        record.user.id ∧
      ((World.mk cache []).after (.establish token record config) .none now).cache.Endless
        (Key.record token) := by
  have ⟨hc, hw⟩ := Session.written_of_established h
  rw [hv] at hw
  have ⟨hk, hs, he⟩ :=
    Session.owned_of_written rfl hn config.lifetime_ne_zero (congrArg Prod.fst hw)
  rw [after_establish_of_connected hc, hv]
  refine ⟨hk, ⟨hs.cache, fun session hm => ?_⟩, he⟩
  obtain hm | rfl := mem_append_launched hm
  · exact nomatch hm
  · exact hs.session

theorem turns_append_singleton (world : World) (token : String) (turns : List Turn) (turn : Turn) :
    world.turns token (turns ++ [turn]) = (world.turns token turns).turn token turn :=
  List.foldl_append

theorem Lasting.endless {start : World} {turns : List Turn} (h : Lasting token start turns)
    (ho : start.Owned token user) (hk : Key.index user ≠ Key.record token)
    (hp : start.cache.Endless (Key.record token)) (ht : ∀ turn ∈ turns, turn.Unlimited token user) :
    (start.turns token turns).cache.Endless (Key.record token) := by
  induction h
  case established => exact hp
  case spared turns turn _ hs hi =>
    have hb : ∀ other ∈ turns, other.Unlimited token user :=
      fun other hm => ht other (List.mem_append_left _ hm)
    have hu : turn.Unlimited token user := ht turn (by simp)
    rw [turns_append_singleton]
    cases turn
    case event event =>
      have ⟨hr, hn⟩ := hs event rfl
      exact (ho.turns hk hb).endless_spared hk hu (hi hb) hr hn
    case command command now => exact (hi hb).reply hu.1
  case renewed turns event hr =>
    have hb : ∀ other ∈ turns, other.Unlimited token user :=
      fun other hm => ht other (List.mem_append_left _ hm)
    have hu : event.Unlimited := ht (.event event) (by simp)
    rw [turns_append_singleton]
    exact (ho.turns hk hb).endless_renewed hk hu hr

-- An identity that is stored without an end is there at any time, as long as it was given no
-- lifetime since, or was rid of it again.
theorem permanent_of_established {record : Record} {config : Config} {now : Instant} {cache : Store}
    (hv : config.settings.neverExpires = true) (hn : now < Instant.last)
    (h : ((Session.establish token record config).run .none now [] cache).value = .ok session)
    (turns : List Turn) (ht : ∀ turn ∈ turns, turn.Unlimited token record.user.id)
    (hl : Lasting token ((World.mk cache []).after (.establish token record config) .none now) turns)
    (later : Instant) :
    (((World.mk cache []).after (.establish token record config) .none now).turns token
      turns).cache.ttl later (Key.record token) = .permanent := by
  have ⟨hk, ho, hp⟩ := owned_of_established hv hn h
  exact (hl.endless ho hk hp ht).ttl later

-- A narrowed list is stored, and then the full one again, without an end.
theorem permanent_after_restoring :
    let config : Config := { connected := true, settings := { neverExpires := true } }
    let stored := (World.mk .empty []).after (.establish "t" (.create "u" []) config) .none 1000
    let turns : List Turn := [.event ⟨.operate 0 (.restrict [] true), .none, 2000⟩,
      .event ⟨.operate 0 .restore, .none, 3000⟩, .event ⟨.operate 0 (.save true), .none, 4000⟩,
      .command (.lpush "queue" "job") 5000]
    ∀ later, (stored.turns "t" turns).cache.ttl later (Key.record "t") = .permanent := by
  intro config stored turns
  have hs : ((stored.turns "t" (turns.take 2)).sessions[0]?.any fun session =>
      session.isModified && decide ((Session.outcome (Session.save true) session .none 4000 []
        (stored.turns "t" (turns.take 2)).cache).value.1 = .ok ())) = true := by
    decide +kernel
  obtain ⟨session, hs, ha⟩ := (Option.any_eq_true ..).mp hs
  have ⟨hm, hd⟩ : session.isModified = true ∧ _ := Bool.and_eq_true_iff.mp ha
  have hr : (stored.turns "t" (turns.take 2)).Renews "t" ⟨.operate 0 (.save true), .none, 4000⟩ :=
    .write ⟨⟨0, rfl, hs⟩, of_decide_eq_true hd⟩ hm
  have hl : Lasting "t" stored turns := .spared (.renewed hr) nofun
  have ht : ∀ turn ∈ turns, turn.Unlimited "t" "u" := by
    intro turn hm
    simp [turns] at hm
    obtain rfl | rfl | rfl | rfl := hm
    case inr.inr.inr => exact ⟨False.elim, nofun⟩
    all_goals
      refine ⟨rfl, by decide, nofun, ?_⟩
      rintro _ _ ⟨⟩ hl
      exact hl
  have he : ((Session.establish "t" (.create "u" []) config).run .none 1000 []
      .empty).value.toOption.isSome = true := by decide +kernel
  obtain ⟨first, he⟩ := Option.isSome_iff_exists.mp he
  have he : ((Session.establish "t" (.create "u" []) config).run .none 1000 []
      .empty).value = .ok first := mem_toList (Option.mem_toList.mpr he)
  exact permanent_of_established rfl (by decide) he turns ht hl

-- Opening an identity that was stored without an end gives it a lifetime, and so does storing a
-- narrowed list. At the last instant there is, it is not even stored.
theorem lifetime_of_permanent :
    let config : Config := { connected := true, settings := { neverExpires := true } }
    let stored := (World.mk .empty []).after (.establish "t" (.create "u" []) config) .none
    let opened := (stored 1000).step "t" ⟨.start config, .none, 2000⟩
    let narrowed := (stored 1000).step "t" ⟨.operate 0 (.restrict [] true), .none, 2000⟩
    (stored 1000).cache.ttl 1000 (Key.record "t") = .permanent ∧
      opened.sessions.length = 2 ∧ opened.cache.ttl 2000 (Key.record "t") = .seconds 3600 ∧
      narrowed.sessions.map Session.isModified = [false] ∧
      narrowed.cache.ttl 2000 (Key.record "t") = .seconds 3600 ∧
      (stored .last).sessions.length = 1 ∧
      (stored .last).cache.ttl .last (Key.record "t") = .missing := by
  decide +kernel

end World
end Entitlement
