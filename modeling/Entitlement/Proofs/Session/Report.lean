import Entitlement.Proofs.Session.Composition
import Entitlement.Proofs.Session.Deed
import Entitlement.Proofs.Session.Record
import Entitlement.Proofs.Store.Exchange
/-!
A command that fails ends what sent it, and is what the answer tells of. Nothing else is told as the
failure of a command. The list of all identities passes over the records that it cannot get, and over
nothing else.
-/

namespace Entitlement

variable {α β : Type} {passes : Exchange → Prop} {exchanges more : List Exchange}

theorem AccessError.code_store_ne : (store operation cause).code ≠ invalidCredentials :=
  show undefinedCode ≠ invalidCredentials by decide

-- The answer tells of the first command that does not pass, and that command is the last one. When all
-- of them pass the answer tells of no command.
inductive Reported (passes : Exchange → Prop) : List Exchange → Except AccessError α → Prop
  | unbroken {exchanges : List Exchange} {answer : Except AccessError α}
    (h : ∀ exchange ∈ exchanges, passes exchange)
    (ha : ∀ operation cause, answer ≠ .error (.store operation cause)) :
    Reported passes exchanges answer
  | broken {exchanges : List Exchange} {command : Command} {cause : StoreError}
    (h : ∀ exchange ∈ exchanges, passes exchange) (hf : ¬passes ⟨command, .error cause⟩) :
    Reported passes (exchanges ++ [⟨command, .error cause⟩]) (.error (.store command.name cause))

namespace Reported

theorem pure {answer : Except AccessError α}
    (h : ∀ operation cause, answer ≠ .error (.store operation cause)) : Reported passes [] answer :=
  .unbroken (List.forall_mem_nil _) h

theorem pass {answer : Except AccessError α} {exchange : Exchange} (hp : passes exchange)
    (h : Reported passes exchanges answer) : Reported passes (exchange :: exchanges) answer := by
  cases h
  case unbroken h ha => exact .unbroken (List.forall_mem_cons.mpr ⟨hp, h⟩) ha
  case broken h hf => exact .broken (List.forall_mem_cons.mpr ⟨hp, h⟩) hf

theorem fail {command : Command} {cause : StoreError} (hf : ¬passes ⟨command, .error cause⟩) :
    Reported passes [⟨command, .error cause⟩]
      (.error (.store command.name cause) : Except AccessError α) :=
  .broken (List.forall_mem_nil _) hf

-- Another answer will do as well, if it tells of the same command or of none either.
theorem congr {answer : Except AccessError α} {other : Except AccessError β}
    (h : Reported passes exchanges answer) (he : ∀ operation cause,
      other = .error (.store operation cause) ↔ answer = .error (.store operation cause)) :
    Reported passes exchanges other := by
  cases h
  case unbroken h ha => exact .unbroken h fun operation cause ho => ha _ _ ((he _ _).mp ho)
  case broken h hf =>
    rw [(he _ _).mpr rfl]
    exact .broken h hf

theorem of_ok {value : α} (h : Reported passes exchanges (.ok value : Except AccessError α)) :
    ∀ exchange ∈ exchanges, passes exchange := by
  cases h
  case unbroken h _ => exact h

theorem bind {value : α} {answer : Except AccessError β}
    (h : Reported passes exchanges (.ok value : Except AccessError α))
    (hn : Reported passes more answer) : Reported passes (exchanges ++ more) answer := by
  cases hn
  case unbroken hm ha => exact .unbroken (List.forall_mem_append.mpr ⟨h.of_ok, hm⟩) ha
  case broken hm hf =>
    rw [← List.append_assoc]
    exact .broken (List.forall_mem_append.mpr ⟨h.of_ok, hm⟩) hf

theorem answer_eq {answer : Except AccessError α} {command : Command} {cause : StoreError}
    (h : Reported passes exchanges answer) (hm : ⟨command, .error cause⟩ ∈ exchanges)
    (hf : ¬passes ⟨command, .error cause⟩) : answer = .error (.store command.name cause) := by
  cases h
  case unbroken h _ => exact absurd (h _ hm) hf
  case broken h _ =>
    obtain hm | hm := List.mem_append.mp hm
    · exact absurd (h _ hm) hf
    · cases List.mem_singleton.mp hm
      rfl

-- No command that failed makes it look as if something were missing or forbidden.
theorem code_ne {answer : Except AccessError α} {error : AccessError}
    (h : Reported passes exchanges answer) (he : answer = .error error)
    (hf : ∃ exchange ∈ exchanges, ¬passes exchange) : error.code ≠ AccessError.invalidCredentials := by
  cases h
  case unbroken h _ =>
    obtain ⟨exchange, hm, hn⟩ := hf
    exact absurd (h exchange hm) hn
  case broken =>
    cases he
    exact AccessError.code_store_ne

end Reported

-- What an action answers tells of the commands that it sent.
def Reports (action : Action α) : Prop :=
  ∀ session exchanges result, (Session.perform action session).Hears exchanges result →
    Reported (·.isServed) exchanges result.1

namespace Reports

theorem pure {value : α} : Reports (pure value : Action α) := by
  rintro session exchanges result (_ | _)
  exact .pure nofun

theorem throw {error : AccessError} (h : ∀ operation cause, error ≠ .store operation cause) :
    Reports (throw error : Action α) := by
  rintro session exchanges result (_ | _)
  exact .pure fun operation cause he => h operation cause (Except.error.inj he)

theorem get : Reports get := by
  rintro session exchanges result (_ | _)
  exact .pure nofun

theorem setState {state : Session.State} : Reports (Session.setState state) := by
  rintro session exchanges result (_ | _)
  exact .pure nofun

theorem send {command : Command} : Reports (Session.send command) := by
  intro session exchanges result h
  change (Script.send command _).Hears exchanges result at h
  obtain _ | ⟨cause | reply, _ | _⟩ := h
  · exact .fail Bool.false_ne_true
  · exact .pass rfl (.pure nofun)

theorem bind {action : Action α} {f : α → Action β} (ha : Reports action)
    (hf : ∀ value, Reports (f value)) : Reports (action >>= f) := by
  intro session exchanges result hh
  obtain ⟨error, next, rfl, h⟩ | ⟨value, next, first, more, rfl, h, hn⟩ :=
    Session.hears_bind_cases hh
  · exact (ha session exchanges _ h).congr (by simp)
  · exact (ha session first _ h).bind (hf value next more result hn)

end Reports

theorem Composed.reports {action : Action α} (h : Composed action) : Reports action := by
  induction h
  case pure => exact .pure
  case throw h => exact .throw h
  case get => exact .get
  case setState => exact .setState
  case send => exact .send
  case exchange hf => exact .bind .send fun _ => .bind .send hf
  case bind ha hf => exact .bind ha hf

-- An action that has succeeded was refused nothing.
theorem Composed.outcome_of_ok {action : Action α} (h : Composed action) {value : α}
    (hv : (Session.outcome action session refuse now sent cache).value.1 = .ok value) :
    Session.outcome action session refuse now sent cache =
      Session.outcome action session .none now sent cache := by
  have hr := h.reports session _ _ (Script.hears_heard _ refuse now sent cache)
  rw [← Session.outcome, hv] at hr
  exact Script.run_of_served _ refuse now sent cache hr.of_ok

-- What can be asked for, but for the list of all identities.
inductive Demand where
  | operate (session : Session) (operation : Operation)
  | create (token : String) (config : Config)
  | start (token : String) (config : Config)
  | establish (token : String) (record : Record) (config : Config)
  | lookup (token : String) (refresh : Bool)
  | tokensOf (user : String)

namespace Demand

abbrev Answer : Demand → Type
  | operate _ operation => operation.Answer
  | create .. | start .. | establish .. => Session
  | lookup .. => Directory.Entry
  | tokensOf _ => List String

def script : (demand : Demand) → Script (Except AccessError demand.Answer)
  | operate session operation => Prod.fst <$> Session.perform operation.ask session
  | create token config => return Session.create token config
  | start token config => Session.start token config
  | establish token record config => Session.establish token record config
  | lookup token refresh => Directory.lookup token refresh
  | tokensOf user => (Directory.tokensOf user).run

end Demand

namespace Exchange

-- The key that is looked up.
def sought? : Exchange → Option String
  | ⟨.get key, _⟩ => some key
  | _ => none

-- The record that is found there.
def found? : Exchange → Option Record
  | ⟨.get _, .ok (some bytes)⟩ => Record.decode? bytes
  | _ => none

-- When all identities are listed it is no harm if one of them cannot be looked up.
def Borne (exchange : Exchange) : Prop :=
  exchange.isServed ∨ exchange.sought?.isSome

theorem not_borne {command : Command} (h : ∀ key, command ≠ .get key) (cause : StoreError) :
    ¬Borne ⟨command, .error cause⟩ := by
  cases command
  case get key => exact absurd rfl (h key)
  all_goals
    rintro (hs | hs)
    all_goals exact Bool.false_ne_true hs

end Exchange

namespace Session

variable {action : Action Unit}

theorem reported_create (token : String) (config : Config) :
    Reported passes [] (create token config) := by
  refine .pure fun operation cause h => ?_
  cases hc : config.connected
  case false => exact nomatch (create_of_not_connected hc).symm.trans h
  case true => exact nomatch (create_of_connected hc).symm.trans h

theorem reported_launch {answer : Except AccessError Session} (ha : Reports action)
    (hs : Reported (·.isServed) [] session)
    (h : (launch action session).Hears exchanges answer) :
    Reported (·.isServed) exchanges answer := by
  obtain ⟨_, rfl, rfl, rfl⟩ | ⟨session, result, rfl, hf, rfl⟩ := hears_launch_cases h
  · exact hs
  · refine (ha session exchanges result hf).congr fun _ _ => ?_
    cases result.1 <;> simp [Except.map]

end Session

namespace Directory

theorem reported_ask {command : Command} {answer : Except AccessError command.Reply}
    (h : (ask command).run.Hears exchanges answer) : Reported (·.isServed) exchanges answer := by
  change (Script.send command _).Hears exchanges answer at h
  obtain _ | ⟨cause | reply, _ | _⟩ := h
  · exact .fail Bool.false_ne_true
  · exact .pass rfl (.pure nofun)

theorem recordAt?_eq (key : String) : recordAt? key =
    .send (.get key) fun reply => .done (Exchange.found? ⟨.get key, reply⟩) := by
  refine congrArg (Script.send (.get key)) (funext fun reply => ?_)
  rcases reply with cause | _ | bytes <;> rfl

theorem entries_cons (key : String) (keys : List String) : (entries (key :: keys)).run =
    .send (.get key) fun reply => match Exchange.found? ⟨.get key, reply⟩ with
      | none => (entries keys).run
      | some record => .send (.ttl key) fun
        | .error cause => .done (.error (.store "ttl" cause))
        | .ok remaining =>
          (entries keys).run >>= fun answer => pure (answer.map (⟨record, remaining⟩ :: ·)) := by
  rw [entries, recordAt?_eq]
  refine congrArg (Script.send (.get key)) (funext fun reply => ?_)
  dsimp only [Script.bind]
  generalize Exchange.found? ⟨.get key, reply⟩ = found
  cases found
  case none => rfl
  case some record =>
    refine congrArg (Script.send (.ttl key)) (funext fun reply => ?_)
    cases reply
    case error => rfl
    case ok remaining =>
      refine congrArg ((entries keys).run >>= ·) (funext fun answer => ?_)
      cases answer <;> rfl

-- What comes of looking at keys one after another: the records that are found make up the answer, and
-- what ends it is named.
structure Gathered (keys : List String) (exchanges : List Exchange)
    (answer : Except AccessError (List Entry)) : Prop where
  reported : Reported Exchange.Borne exchanges answer
  code_ne : ∀ error, answer = .error error → error.code ≠ AccessError.invalidCredentials
  found : ∀ entries, answer = .ok entries → exchanges.filterMap Exchange.sought? = keys ∧
    entries.map Entry.record = exchanges.filterMap Exchange.found?

namespace Gathered

variable {key : String} {keys : List String} {reply : Except StoreError (Command.get key).Reply}
  {answer : Except AccessError (List Entry)}

theorem missed (h : Gathered keys exchanges answer)
    (hf : Exchange.found? ⟨.get key, reply⟩ = none) :
    Gathered (key :: keys) (⟨.get key, reply⟩ :: exchanges) answer where
  reported := .pass (.inr rfl) h.reported
  code_ne := h.code_ne
  found entries he := by
    have ⟨hk, hm⟩ := h.found entries he
    refine ⟨congrArg (key :: ·) hk, ?_⟩
    rw [List.filterMap_cons_none hf, hm]

theorem failed (cause : StoreError) : Gathered (key :: keys)
    [⟨.get key, reply⟩, ⟨.ttl key, .error cause⟩] (.error (.store "ttl" cause)) where
  reported := .pass (.inr rfl) (.fail (Exchange.not_borne (fun _ he => Command.noConfusion he) cause))
  code_ne error he := by
    cases he
    exact AccessError.code_store_ne
  found := nofun

theorem shown {remaining : Store.Lifetime} (h : Gathered keys exchanges answer)
    (hf : Exchange.found? ⟨.get key, reply⟩ = some record) : Gathered (key :: keys)
      (⟨.get key, reply⟩ :: ⟨.ttl key, .ok remaining⟩ :: exchanges)
      (answer.map (⟨record, remaining⟩ :: ·)) := by
  have ⟨hr, hc, he⟩ := h
  cases answer
  case error error =>
    exact ⟨.pass (.inr rfl) (.pass (.inl rfl) (hr.congr (by simp [Except.map]))), hc, nofun⟩
  case ok entries =>
    refine ⟨.pass (.inr rfl) (.pass (.inl rfl) (hr.congr (by simp [Except.map]))), nofun, ?_⟩
    rintro _ ⟨_⟩
    have ⟨hk, hm⟩ := he entries rfl
    refine ⟨congrArg (key :: ·) hk, ?_⟩
    exact (congrArg (record :: ·) hm).trans (List.filterMap_cons_some hf).symm

end Gathered

theorem gathered_entries {keys : List String} {answer : Except AccessError (List Entry)}
    (h : (entries keys).run.Hears exchanges answer) : Gathered keys exchanges answer := by
  induction keys generalizing exchanges answer
  case nil =>
    obtain ⟨rfl, rfl⟩ := Script.hears_pure.mp h
    refine ⟨.pure nofun, nofun, ?_⟩
    rintro _ ⟨_⟩
    exact ⟨rfl, rfl⟩
  case cons key keys hi =>
    rw [entries_cons] at h
    obtain _ | ⟨reply, h⟩ := h
    cases hf : Exchange.found? ⟨.get key, reply⟩
    all_goals simp only [hf] at h
    case none => exact (hi h).missed hf
    case some record =>
      obtain _ | ⟨cause | remaining, h⟩ := h
      case error =>
        cases h
        exact .failed cause
      case ok =>
        obtain ⟨rest, first, more, rfl, hs, hn⟩ := Script.hears_bind.mp h
        obtain ⟨rfl, rfl⟩ := Script.hears_pure.mp hn
        rw [List.append_nil]
        exact (hi hs).shown hf

end Directory

theorem Demand.reported {demand : Demand} {answer : Except AccessError demand.Answer}
    (h : demand.script.Hears exchanges answer) : Reported (·.isServed) exchanges answer := by
  cases demand
  case operate session operation =>
    obtain ⟨result, hp, rfl⟩ := Script.hears_map.mp h
    exact operation.composed.reports session exchanges result hp
  case create token config =>
    obtain ⟨rfl, rfl⟩ := Script.hears_pure.mp h
    exact Session.reported_create token config
  case start token config =>
    exact Session.reported_launch Session.composed_load.reports (Session.reported_create ..) h
  case establish token record config =>
    refine Session.reported_launch Session.composed_write.reports ?_ h
    exact (Session.reported_create token config).congr fun _ _ => by
      cases Session.create token config <;> simp [Except.map]
  case lookup token refresh =>
    rw [script, Directory.lookup, Session.create_of_connected rfl] at h
    obtain ⟨result, hp, rfl⟩ := Script.hears_map.mp (h : (Prod.fst <$> _ : Script _).Hears _ _)
    exact Session.composed_entry.reports _ exchanges result hp
  case tokensOf user => exact Directory.reported_ask h

-- A command that fails is the last one of what was asked for, and the answer names it; no other answer
-- names a command. When all identities are listed, this is so but for records that cannot be looked up:
-- they alone are left out. What fails never looks as if something were missing or forbidden.
theorem reported_of_heard :
    (∀ (demand : Demand) exchanges answer, demand.script.Hears exchanges answer →
      Reported (·.isServed) exchanges answer ∧
        ∀ error, answer = .error error → (∃ exchange ∈ exchanges, !exchange.isServed) →
          error.code ≠ AccessError.invalidCredentials) ∧
    ∀ exchanges answer, Directory.all.run.Hears exchanges answer →
      Reported Exchange.Borne exchanges answer ∧
        (∀ error, answer = .error error → error.code ≠ AccessError.invalidCredentials) ∧
        ∀ entries, answer = .ok entries → ∃ keys rest,
          exchanges = ⟨.keys Key.start, .ok keys⟩ :: rest ∧
            rest.filterMap Exchange.sought? = keys.filter (!Key.isIndex ·) ∧
              entries.map Directory.Entry.record = rest.filterMap Exchange.found? := by
  constructor
  case left =>
    intro demand exchanges answer h
    have hr : Reported (·.isServed) exchanges answer := Demand.reported h
    refine ⟨hr, fun error he ⟨exchange, hm, hf⟩ => hr.code_ne he ⟨exchange, hm, ?_⟩⟩
    simpa using hf
  case right =>
    intro exchanges answer h
    change (Script.send (.keys Key.start) _).Hears exchanges answer at h
    obtain _ | ⟨cause | keys, h⟩ := h
    case error =>
      cases h
      refine ⟨.fail (Exchange.not_borne (fun _ he => Command.noConfusion he) cause), ?_, nofun⟩
      rintro _ ⟨_⟩
      exact AccessError.code_store_ne
    case ok =>
      have hg : Directory.Gathered (keys.filter (!Key.isIndex ·)) _ answer :=
        Directory.gathered_entries h
      exact ⟨.pass (.inl rfl) hg.reported, hg.code_ne,
        fun entries he => ⟨keys, _, rfl, hg.found entries he⟩⟩

-- A record is written half way, and of two identities the first one cannot be looked up.
theorem reported_when_refused :
    let cause : StoreError := .unavailable "away"
    let record : Record := .create "u" []
    let save : Demand := .operate ⟨"t", 60, true, .held (.of record true)⟩ (.save false)
    let refused : List Exchange := [
      ⟨.setex (Key.record "t") 60 (Held.of record true).record.encode, .ok ()⟩,
      ⟨.lrem (Key.index "u") 0 "t", .ok 0⟩, ⟨.lpush (Key.index "u") "t", .error cause⟩]
    let listed : List Exchange := [
      ⟨.keys Key.start, .ok ["identity:s", "identity:t"]⟩, ⟨.get "identity:s", .error cause⟩,
      ⟨.get "identity:t", .ok (some record.encode)⟩, ⟨.ttl "identity:t", .ok .permanent⟩]
    let answer : Except AccessError save.Answer := .error (.store "lpush" cause)
    save.script.Hears refused answer ∧ Reported (·.isServed) refused answer ∧
      Directory.all.run.Hears listed (.ok [⟨record, .permanent⟩]) ∧
        ∃ keys rest, listed = ⟨.keys Key.start, .ok keys⟩ :: rest ∧
          rest.filterMap Exchange.sought? = keys.filter (!Key.isIndex ·) ∧
            [record] = rest.filterMap Exchange.found? := by
  intro cause record save refused listed answer
  have hd : Record.decode? record.encode = some record := Record.Bare.decode?_encode ⟨rfl, rfl⟩
  have hs : save.script.Hears refused answer :=
    Script.hears_map.mpr ⟨_, .send _ (.send _ (.send _ .done)), rfl⟩
  have ha : Directory.all.run.Hears listed (.ok [⟨record, .permanent⟩]) := by
    have hk : ["identity:s", "identity:t"].filter (!Key.isIndex ·) = ["identity:s", "identity:t"] := by
      decide +kernel
    refine .send _ ?_
    change (Directory.entries (List.filter _ _)).run.Hears _ _
    rw [hk, Directory.entries_cons]
    refine .send _ ?_
    simp only [Exchange.found?, Directory.entries_cons]
    refine .send _ ?_
    simp only [hd]
    exact .send _ .done
  exact ⟨hs, (reported_of_heard.1 save refused answer hs).1, ha,
    (reported_of_heard.2 listed _ ha).2.2 _ rfl⟩

end Entitlement
