import Entitlement.Proofs.Session.Run
import Mathlib.Logic.Relation
/-!
The course that operations take. Whatever an operation does to the cache it does by a few parts that
all of them share; between these it changes no more of a record in memory than what is active.
-/

namespace Entitlement

open Relation (ReflTransGen)

-- A session at work: how it stands, the cache, and the commands that were sent so far.
structure Stage where
  session : Session
  cache : Store
  sent : List Command

def Stage.after (stage : Stage) (action : Action α) (refuse : Script.Refusal) (now : Instant) :
    Stage :=
  let outcome := Session.outcome action stage.session refuse now stage.sent stage.cache
  ⟨outcome.value.2, outcome.store, outcome.sent⟩

-- Of a record in memory no more than the active list has changed.
def Held.Recalled (held next : Held) : Prop :=
  next.record =
    { held.record with user := { held.record.user with perms := next.record.user.perms } }

inductive Part where
  | load
  | write (never : Bool)
  | expire (seconds : UInt64)
  | refresh (never : Bool)
  | remove

def Part.action : Part → Action Unit
  | load => Session.load
  | write never => Session.write never
  | expire seconds => Session.setLifetime seconds
  | refresh never => Session.refresh never
  | remove => Session.remove

-- The parts that an operation consists of once there is a record in memory, modified or not.
inductive Operation.Uses (modified : Bool) : Operation → Part → Prop
  | load : Uses modified .load .load
  | restrict {grants} : Uses modified (.restrict grants true) (.write false)
  | setLifetime {seconds} : Uses modified (.setLifetime seconds) (.expire seconds)
  | refresh {never} : Uses modified (.refresh never) (.refresh never)
  | saveModified {never} (h : modified = true) : Uses modified (.save never) (.write never)
  | saveUnmodified {never} (h : modified = false) : Uses modified (.save never) (.refresh never)
  | remove : Uses modified .remove .remove

-- Apart from loading, a part begins with a record in memory.
inductive Stage.Step (uses : Part → Prop) (refuse : Script.Refusal) (now : Instant) :
    Stage → Stage → Prop
  | remember {stage held next} (hs : stage.session.state = .held held) (hr : held.Recalled next) :
    Step uses refuse now stage { stage with session := { stage.session with state := .held next } }
  | ask {stage} : Step uses refuse now stage (stage.after Session.remaining refuse now)
  | load {stage} (hu : uses .load) : Step uses refuse now stage (stage.after Session.load refuse now)
  | finish {stage held part} (hu : uses part) (hs : stage.session.state = .held held) :
    Step uses refuse now stage (stage.after part.action refuse now)

namespace Held.Recalled

variable {held next last : Held}

theorem refl (held : Held) : held.Recalled held :=
  rfl

theorem trans (h : held.Recalled next) (hn : next.Recalled last) : held.Recalled last := by
  rw [Recalled, hn, h]

theorem user (h : held.Recalled next) : next.record.user.id = held.record.user.id := by
  rw [h]

end Held.Recalled

-- With a record in memory an action needs nothing else, and it keeps the record in all that counts.
def Recalls (action : Action α) : Prop :=
  ∀ session held, session.state = .held held → ∃ answer next, held.Recalled next ∧
    Session.perform action session = pure (answer, { session with state := .held next })

namespace Recalls

variable {α β : Type}

theorem outcome {action : Action α} {session : Session} (h : Recalls action)
    (hs : session.state = .held held) (refuse : Script.Refusal) (now : Instant)
    (sent : List Command) (cache : Store) : ∃ answer next, held.Recalled next ∧
      Session.outcome action session refuse now sent cache =
        ⟨(answer, { session with state := .held next }), cache, sent⟩ := by
  have ⟨answer, next, hr, hp⟩ := h session held hs
  exact ⟨answer, next, hr, by rw [Session.outcome, hp]; rfl⟩

theorem pure : Recalls (pure value : Action α) := by
  intro session held hs
  exact ⟨.ok value, held, .refl held, hs ▸ rfl⟩

theorem throw : Recalls (throw error : Action α) := by
  intro session held hs
  exact ⟨.error error, held, .refl held, hs ▸ rfl⟩

theorem get : Recalls get := by
  intro session held hs
  exact ⟨.ok session, held, .refl held, hs ▸ rfl⟩

theorem bind {action : Action α} {f : α → Action β} (ha : Recalls action)
    (hf : ∀ value, Recalls (f value)) : Recalls (action >>= f) := by
  intro session held hs
  have ⟨answer, next, hr, ha⟩ := ha session held hs
  rw [Session.perform_bind, ha, pure_bind]
  cases answer
  case error error => exact ⟨.error error, next, hr, rfl⟩
  case ok value =>
    have ⟨answer, last, hl, hf⟩ := hf value { session with state := .held next } next rfl
    exact ⟨answer, last, hr.trans hl, hf⟩

-- The record that an action works on is the one in memory.
theorem bind_held {f : Held → Action β} (h : ∀ session held, session.state = .held held →
    ∃ answer next, held.Recalled next ∧
      Session.perform (f held) session = Pure.pure (answer, { session with state := .held next })) :
    Recalls (Session.held >>= f) := by
  intro session held hs
  rw [Session.perform_bind, Session.perform_held hs, pure_bind]
  exact h session held hs

theorem exchange {f : Held → Held} (h : ∀ held : Held, held.Recalled (f held)) :
    Recalls (Session.held >>= fun held => Session.setState (.held (f held))) :=
  bind_held fun _ held _ => ⟨.ok (), f held, h held, rfl⟩

theorem held : Recalls Session.held := by
  intro session held hs
  refine ⟨.ok held, held, .refl held, ?_⟩
  rw [Session.perform_held hs, ← hs]

-- A list that is decoded is kept with the record.
theorem decoded {held : Held} {keep : List Grant → Held} (hk : ∀ grants, held.Recalled (keep grants))
    (hs : session.state = .held held) : ∃ answer next, held.Recalled next ∧
      Session.perform (do
        let grants ← Session.decoded blob
        Session.setState (.held (keep grants))
        return grants) session = Pure.pure (answer, { session with state := .held next }) := by
  rw [Session.perform_bind, Session.perform_decoded, pure_bind]
  cases Session.granted blob
  case error error => exact ⟨.error error, held, .refl held, hs ▸ rfl⟩
  case ok grants => exact ⟨.ok grants, keep grants, hk grants, rfl⟩

theorem activeGrants : Recalls Session.activeGrants := by
  refine bind_held fun session held hs => ?_
  split
  · exact pure session held hs
  · exact decoded (fun _ => rfl) hs

theorem fullGrants : Recalls Session.fullGrants := by
  refine bind_held fun session held hs => ?_
  split
  · exact pure session held hs
  · exact decoded (fun _ => rfl) hs

theorem activate : Recalls (Session.activate grants) :=
  exchange fun _ => rfl

theorem restore : Recalls Session.restore :=
  bind fullGrants fun _ => exchange fun _ => rfl

theorem intoRecord : Recalls Session.intoRecord := by
  refine bind_held fun session held hs => ⟨.ok held.record, held, .refl held, ?_⟩
  cases session
  cases hs
  rfl

end Recalls

-- An action that first of all asks for the record.
def Begins (action : Action α) : Prop :=
  ∃ rest : Held → Action α, action = Session.held >>= rest

namespace Begins

variable {α β : Type}

theorem bind {action : Action α} {f : α → Action β} (h : Begins action) : Begins (action >>= f) := by
  have ⟨rest, ha⟩ := h
  exact ⟨fun held => rest held >>= f, by rw [ha, bind_assoc]⟩

theorem held {rest : Held → Action α} : Begins (Session.held >>= rest) :=
  ⟨rest, rfl⟩

end Begins

namespace Stage

variable {α β : Type} {stage : Stage} {held : Held} {uses : Part → Prop} {refuse : Script.Refusal}
  {now : Instant}

abbrev Steps (uses : Part → Prop) (refuse : Script.Refusal) (now : Instant) :
    Stage → Stage → Prop :=
  ReflTransGen (Step uses refuse now)

theorem after_bind (stage : Stage) (action : Action α) (f : α → Action β) :
    stage.after (action >>= f) refuse now =
      match (Session.outcome action stage.session refuse now stage.sent stage.cache).value.1 with
      | .ok value => (stage.after action refuse now).after (f value) refuse now
      | .error _ => stage.after action refuse now := by
  rw [after, Session.outcome_bind]
  dsimp only
  split <;> simp only [after, *]

end Stage

namespace Session

variable {session : Session} (refuse : Script.Refusal) (now : Instant) (sent : List Command)
  (cache : Store)

theorem holding_of_load (h : (outcome load session refuse now sent cache).value.1 = .ok done) :
    (outcome load session refuse now sent cache).value.2.Holding
      fun held => held.modified = false := by
  have hs : session.Sane session.token fun _ => True := ⟨rfl, fun _ _ => trivial⟩
  have hk : Keeps .free session.token (fun _ => True) (fun _ => True) load _ :=
    (Upkeep.free session.token).load
  exact (hk.outcome Contract.free_upheld hs trivial refuse now sent cache trivial).2.2 done h

theorem outcome_remaining :
    (outcome remaining session refuse now sent cache).value.2 = session := by
  have he : Ensures .free remaining (fun _ after => after = session) session := by
    simp only [remaining, ensureNotRemoved, Ensures.bind_iff, Ensures.get_iff]
    split
    · simp
    · rw [Ensures.pure_iff, Ensures.send_iff]
      refine ⟨trivial, fun reply _ => ?_⟩
      cases reply <;> rfl
  exact (he.run Contract.free_upheld refuse now sent cache trivial).1

-- The record as it is in memory, without loading it.
def present : Action Held := do
  let session ← get
  match session.state with
  | .held held => return held
  | .removed => throw (.removed session.token)
  | .unloaded => throw (.notLoaded session.token)

theorem perform_held_of_removed (hs : session.state = .removed) :
    perform held session = pure (.error (.removed session.token), session) := by
  cases session
  cases hs
  rfl

-- Once the record was loaded it is as if it had been there before.
theorem outcome_held_of_unloaded (hs : session.state = .unloaded) :
    outcome held session refuse now sent cache =
      let first := outcome load session refuse now sent cache
      match first.value.1 with
      | .ok _ => outcome held first.value.2 refuse now first.sent first.store
      | .error error => ⟨(.error error, first.value.2), first.store, first.sent⟩ := by
  have hp : outcome held session refuse now sent cache =
      outcome (load >>= fun _ => present) session refuse now sent cache := by
    cases session
    cases hs
    rfl
  rw [hp, outcome_bind]
  cases ha : (outcome load session refuse now sent cache).value.1
  case error => simp only [ha]
  case ok =>
    obtain ⟨held, hh, _⟩ := holding_of_load refuse now sent cache ha
    simp only [ha]
    generalize outcome load session refuse now sent cache = first at hh
    obtain ⟨⟨_, after⟩, _, _⟩ := first
    cases after
    cases hh
    rfl

end Session

namespace Begins

variable {α : Type} {stage : Stage} {refuse : Script.Refusal} {now : Instant} {action : Action α}

theorem outcome_of_removed (h : Begins action) (hs : session.state = .removed)
    (refuse : Script.Refusal) (now : Instant) (sent : List Command) (cache : Store) :
    Session.outcome action session refuse now sent cache =
      ⟨(.error (.removed session.token), session), cache, sent⟩ := by
  have ⟨rest, ha⟩ := h
  subst ha
  rw [Session.outcome_bind, Session.outcome, Session.perform_held_of_removed hs]
  rfl

theorem after_of_removed (h : Begins action) (hs : stage.session.state = .removed) :
    stage.after action refuse now = stage := by
  rw [Stage.after, h.outcome_of_removed hs]

theorem outcome_of_unloaded (h : Begins action) (hs : session.state = .unloaded)
    (refuse : Script.Refusal) (now : Instant) (sent : List Command) (cache : Store) :
    Session.outcome action session refuse now sent cache =
      let first := Session.outcome Session.load session refuse now sent cache
      match first.value.1 with
      | .ok _ => Session.outcome action first.value.2 refuse now first.sent first.store
      | .error error => ⟨(.error error, first.value.2), first.store, first.sent⟩ := by
  have ⟨rest, ha⟩ := h
  subst ha
  have ho := Session.outcome_held_of_unloaded refuse now sent cache hs
  cases ha : (Session.outcome Session.load session refuse now sent cache).value.1
  all_goals simp only [Session.outcome_bind, ho, ha]

theorem after_of_unloaded (h : Begins action) (hs : stage.session.state = .unloaded) :
    stage.after action refuse now = stage.after Session.load refuse now ∨
      ((stage.after Session.load refuse now).session.Holding fun held => held.modified = false) ∧
        stage.after action refuse now =
          (stage.after Session.load refuse now).after action refuse now := by
  have ho := h.outcome_of_unloaded hs refuse now stage.sent stage.cache
  cases ha : (Session.outcome Session.load stage.session refuse now stage.sent stage.cache).value.1
  case error error =>
    left
    rw [Stage.after, ho]
    simp only [ha, Stage.after]
  case ok =>
    right
    refine ⟨Session.holding_of_load refuse now stage.sent stage.cache ha, ?_⟩
    rw [Stage.after, ho]
    simp only [ha, Stage.after]

end Begins

namespace Stage

variable {α β : Type} {stage : Stage} {held : Held} {uses : Part → Prop} {refuse : Script.Refusal}
  {now : Instant}

theorem after_held_bind {f : Held → Action α} (hs : stage.session.state = .held held) :
    stage.after (Session.held >>= f) refuse now = stage.after (f held) refuse now := by
  rw [after, Session.outcome, Session.perform_bind, Session.perform_held hs, pure_bind]
  rfl

theorem step_of_recalls {action : Action α} (ha : Recalls action)
    (hs : stage.session.state = .held held) :
    Step uses refuse now stage (stage.after action refuse now) ∧
      ∃ next, (stage.after action refuse now).session.state = .held next := by
  have ⟨answer, next, hr, ho⟩ := ha.outcome hs refuse now stage.sent stage.cache
  rw [after, ho]
  exact ⟨.remember hs hr, next, rfl⟩

theorem steps_of_recalls {action : Action α} (ha : Recalls action)
    (hs : stage.session.state = .held held) :
    Steps uses refuse now stage (stage.after action refuse now) :=
  .single (step_of_recalls ha hs).1

-- An action goes on from where its beginning has led to, if that did not fail.
theorem steps_bind {action : Action α} {f : α → Action β}
    (ha : Steps uses refuse now stage (stage.after action refuse now))
    (hf : ∀ value,
      (Session.outcome action stage.session refuse now stage.sent stage.cache).value.1 = .ok value →
        Steps uses refuse now (stage.after action refuse now)
          ((stage.after action refuse now).after (f value) refuse now)) :
    Steps uses refuse now stage (stage.after (action >>= f) refuse now) := by
  rw [after_bind]
  split
  case h_1 value he => exact ha.trans (hf value he)
  case h_2 => exact ha

theorem steps_recalls_bind {action : Action α} {f : α → Action β} (ha : Recalls action)
    (hf : ∀ value (stage : Stage) held, stage.session.state = .held held →
      Steps uses refuse now stage (stage.after (f value) refuse now))
    (hs : stage.session.state = .held held) :
    Steps uses refuse now stage (stage.after (action >>= f) refuse now) := by
  have ⟨hstep, next, hn⟩ : Step uses refuse now stage (stage.after action refuse now) ∧ _ :=
    step_of_recalls ha hs
  exact steps_bind (.single hstep) fun value _ => hf value _ next hn

end Stage

namespace Operation

variable {operation : Operation} {stage : Stage} {uses : Part → Prop} {refuse : Script.Refusal}
  {now : Instant}

theorem begins (hl : operation ≠ .load) (hr : operation ≠ .remaining) :
    Begins operation.action := by
  cases operation
  case load => exact absurd rfl hl
  case remaining => exact absurd rfl hr
  case record | user | activeGrants | fullGrants | intoRecord => exact .bind .held
  case activate | save => exact .held
  case restrict | restore => exact .bind .held
  case can | isActive => exact .bind (.bind .held)
  case setLifetime | refresh | remove => exact .bind .held

theorem steps_remaining :
    stage.Steps uses refuse now (stage.after (do let _ ← Session.remaining) refuse now) := by
  have ha : stage.after (do let _ ← Session.remaining) refuse now =
      stage.after Session.remaining refuse now := by
    rw [Stage.after_bind]
    split <;> rfl
  exact ha ▸ .single .ask

theorem steps_of_held (hu : ∀ part, operation.Uses held.modified part → uses part)
    (hs : stage.session.state = .held held) :
    stage.Steps uses refuse now (stage.after operation.action refuse now) := by
  have remember {α : Type} {action : Action α} (ha : Recalls action) :
      stage.Steps uses refuse now (stage.after (do let _ ← action) refuse now) :=
    Stage.steps_of_recalls (.bind ha fun _ => .pure) hs
  have finish {stage : Stage} {next : Held} (part : Part) (hp : operation.Uses held.modified part)
      (hs : stage.session.state = .held next) :
      stage.Steps uses refuse now (stage.after part.action refuse now) :=
    .single (.finish (hu part hp) hs)
  cases operation
  case load => exact .single (.load (hu .load .load))
  case record => exact remember (.bind .held fun _ => .pure)
  case user => exact remember (.bind .held fun _ => .pure)
  case activeGrants => exact remember .activeGrants
  case fullGrants => exact remember .fullGrants
  case activate grants => exact Stage.steps_of_recalls .activate hs
  case restrict grants store =>
    refine Stage.steps_recalls_bind .fullGrants (fun full stage held hs => ?_) hs
    split
    · exact Stage.steps_of_recalls .throw hs
    · refine Stage.steps_recalls_bind .activate (fun _ stage held hs => ?_) hs
      cases store
      case false => exact Stage.steps_of_recalls .pure hs
      case true => exact finish (.write false) .restrict hs
  case restore => exact Stage.steps_of_recalls .restore hs
  case can action objectType path definition => exact remember (.bind .fullGrants fun _ => .pure)
  case isActive action objectType path definition => exact remember (.bind .activeGrants fun _ => .pure)
  case remaining => exact steps_remaining
  case setLifetime seconds => exact finish (.expire seconds) .setLifetime hs
  case refresh never => exact finish (.refresh never) .refresh hs
  case save never =>
    rw [show stage.after (action (.save never)) refuse now = stage.after (if held.modified then
      Session.write never else Session.refresh never) refuse now from Stage.after_held_bind hs]
    cases hm : held.modified
    case false => exact finish (.refresh never) (.saveUnmodified hm) hs
    case true => exact finish (.write never) (.saveModified hm) hs
  case remove => exact finish .remove .remove hs
  case intoRecord => exact remember .intoRecord

-- A session without a record loads it first; that may be all that it comes to.
theorem steps (hu : ∀ part, operation.Uses stage.session.isModified part → uses part)
    (hl : operation ≠ .remaining → stage.session.state = .unloaded → uses .load) :
    stage.Steps uses refuse now (stage.after operation.action refuse now) := by
  by_cases ho : operation = .load
  case pos =>
    subst ho
    exact .single (.load (hu .load .load))
  by_cases hr : operation = .remaining
  case pos =>
    subst hr
    exact steps_remaining
  have hb : Begins operation.action := begins ho hr
  cases hs : stage.session.state
  case held held =>
    rw [Session.isModified_of_held hs] at hu
    exact steps_of_held hu hs
  case removed =>
    rw [hb.after_of_removed hs]
  case unloaded =>
    have hload : stage.Step uses refuse now (stage.after Session.load refuse now) := .load (hl hr hs)
    cases hb.after_of_unloaded hs
    case inl he => exact he ▸ .single hload
    case inr h =>
      obtain ⟨⟨held, hh, hm⟩, he⟩ := h
      rw [Session.isModified, hs] at hu
      exact he ▸ .head hload (steps_of_held (hm.symm ▸ hu) hh)

end Operation

namespace Tending

variable {contract : Contract} {token : String} {inv : Held → Prop}

-- With a record in memory a session is only about this record.
theorem finish (t : Tending contract token inv) {part : Part} (hp : part ≠ .load) :
    Keeps contract token inv (·.Holding fun _ => True) part.action fun _ _ => True := by
  have drop {pre : Session → Prop} {action : Action Unit} {post : Unit → Session → Prop}
      (ha : Keeps contract token inv pre action post) :
      Keeps contract token inv pre action fun _ _ => True :=
    ha.mono (fun _ h => h) fun _ _ _ => trivial
  have hu : Keeps contract token inv (·.Holding fun _ => True) Session.user fun name session =>
      session.Holding fun held => held.record.user.id = name :=
    .bind .held fun held => .pure fun _ h => ⟨held, h.1, rfl⟩
  cases part
  case load => exact absurd rfl hp
  case write never => exact drop (t.write .held (fun _ h => h) never)
  case expire seconds => exact drop (.bind hu fun _ => t.expireBoth seconds)
  case refresh never => exact drop (.bind hu fun _ => t.refreshFor never)
  case remove => exact drop (.bind hu fun _ => t.erase)

end Tending

namespace Stage.Step

variable {contract : Contract} {token : String} {inv : Held → Prop} {upheld : Store → Prop}
  {uses : Part → Prop} {refuse : Script.Refusal} {now : Instant} {stage next : Stage}

-- What every command upholds, every step does.
theorem sane (t : Tending contract token inv) (hc : contract.UpheldAt now upheld)
    (ht : contract.sends (.ttl (Key.record token)))
    (hl : uses .load → Keeps contract token inv (fun _ => True) Session.load fun _ _ => True)
    (hr : ∀ held next, held.Recalled next → inv held → inv next)
    (h : Step uses refuse now stage next) (hs : stage.session.Sane token inv)
    (hu : upheld stage.cache) : next.session.Sane token inv ∧ upheld next.cache := by
  have done {α : Type} {pre : Session → Prop} {action : Action α} {post : α → Session → Prop}
      (hp : pre stage.session) (ha : Keeps contract token inv pre action post) :
      (stage.after action refuse now).session.Sane token inv ∧
        upheld (stage.after action refuse now).cache := by
    have ho := (ha stage.session hs hp).run_at hc hu refuse stage.sent
    exact ⟨ho.1.1, ho.2⟩
  cases h
  case remember held next hh hn =>
    refine ⟨⟨hs.token, ?_⟩, hu⟩
    rintro _ ⟨⟩
    exact hr held next hn (hs.held held hh)
  case ask =>
    have ha : Keeps contract token inv (fun _ => True) Session.remaining _ := .remaining ht
    exact done trivial ha
  case load hload => exact done trivial (hl hload)
  case finish held part hp hh =>
    by_cases he : part = .load
    case pos => exact he ▸ done trivial (hl (he ▸ hp))
    case neg => exact done ⟨held, hh, trivial⟩ (t.finish he)

end Stage.Step

theorem Stage.Steps.sane {contract : Contract} {token : String} {inv : Held → Prop}
    {upheld : Store → Prop} {uses : Part → Prop} {refuse : Script.Refusal} {now : Instant}
    {stage last : Stage} (t : Tending contract token inv) (hc : contract.UpheldAt now upheld)
    (ht : contract.sends (.ttl (Key.record token)))
    (hl : uses .load → Keeps contract token inv (fun _ => True) Session.load fun _ _ => True)
    (hr : ∀ held next, held.Recalled next → inv held → inv next)
    (h : stage.Steps uses refuse now last) (hs : stage.session.Sane token inv)
    (hu : upheld stage.cache) : last.session.Sane token inv ∧ upheld last.cache := by
  induction h
  case refl => exact ⟨hs, hu⟩
  case tail hstep hi => exact hstep.sane t hc ht hl hr hi.1 hi.2

end Entitlement
