import Entitlement.Proofs.Session.Composition
import Entitlement.Proofs.Session.Deed
import Entitlement.Proofs.Store.Recency
/-!
The index of a user names each token once, the one that was written last first. This holds whatever
is done with identities, also if commands are refused and while time goes by.
-/

namespace Entitlement

theorem Composed.tidy {α : Type} {action : Action α} (h : Composed action) (session : Session) :
    (Session.perform action session).Tidy none := by
  induction h generalizing session
  case pure | throw | get | setState => trivial
  case send command h =>
    change (Script.send command _).Tidy none
    refine ⟨fun key value he => absurd he (h key value), fun reply => ?_⟩
    cases reply <;> trivial
  case exchange key value f hf hi =>
    change (Script.send (.lrem key 0 value) _).Tidy none
    refine ⟨fun _ _ he => Command.noConfusion he, fun reply => ?_⟩
    cases reply
    case error => trivial
    case ok n =>
      change (Script.send (.lpush key value) _).Tidy (some (key, value))
      refine ⟨fun other item he => ?_, fun reply => ?_⟩
      · cases he
        rfl
      · cases reply
        case error => trivial
        case ok n => exact hi n session
  case bind ha hf =>
    rw [Session.perform_bind]
    refine (ha session).bind fun result => ?_
    obtain ⟨answer, session⟩ := result
    cases answer
    case error => trivial
    case ok value => exact hf value session

theorem Session.tidy_launch {action : Action Unit} (h : Composed action)
    (session : Except AccessError Session) : (launch action session).Tidy none := by
  cases session
  case error => trivial
  case ok session => exact (h.tidy session).bind fun _ => trivial

theorem Directory.tidy_lookup (token : String) (refresh : Bool) :
    (lookup token refresh).Tidy none := by
  rw [lookup]
  split
  · trivial
  · exact (Session.composed_entry.tidy _).bind fun _ => trivial

-- A deed as a script that comes to the sessions that there are afterwards.
def Deed.script (sessions : List Session) : Deed → Script (List Session)
  | create token config => return sessions ++ (Session.create token config).toOption.toList
  | start token config => do
    return sessions ++ (← Session.start token config).toOption.toList
  | establish token record config => do
    return sessions ++ (← Session.establish token record config).toOption.toList
  | lookup token refresh => do
    let _ ← Directory.lookup token refresh
    return sessions
  | operate index operation =>
    match sessions[index]? with
    | none => return sessions
    | some session => do
      return sessions.set index (← Session.perform operation.action session).2

theorem World.run_script (world : World) (deed : Deed) (refuse : Script.Refusal) (now : Instant) :
    (deed.script world.sessions).run refuse now [] world.cache = world.outcome deed refuse now := by
  cases deed
  case create => rfl
  case start => exact Script.run_bind ..
  case establish => exact Script.run_bind ..
  case lookup => exact Script.run_bind ..
  case operate index operation =>
    rw [Deed.script, outcome]
    cases world.sessions[index]?
    case none => rfl
    case some => exact Script.run_bind ..

theorem Deed.tidy_script (sessions : List Session) (deed : Deed) :
    (deed.script sessions).Tidy none := by
  cases deed
  case create => trivial
  case start => exact (Session.tidy_launch Session.composed_load _).bind fun _ => trivial
  case establish => exact (Session.tidy_launch Session.composed_write _).bind fun _ => trivial
  case lookup token refresh => exact (Directory.tidy_lookup token refresh).bind fun _ => trivial
  case operate index operation =>
    rw [Deed.script]
    cases sessions[index]?
    case none => trivial
    case some session => exact (operation.composed_action.tidy session).bind fun _ => trivial

-- Sessions and a cache that was empty at first, as deeds have left them that were done one after
-- another. Of their commands any can have been refused, and time has gone by all the while.
inductive Told : List Session → Chronicle → Prop
  | empty {now : Instant} : Told [] ⟨now, .empty, []⟩
  | wait {sessions : List Session} {chronicle : Chronicle} {now : Instant}
    (h : Told sessions chronicle) (hn : chronicle.now ≤ now) : Told sessions { chronicle with now }
  | deed {sessions next : List Session} {chronicle last : Chronicle} {deed : Deed}
    (h : Told sessions chronicle) (hr : (deed.script sessions).Runs chronicle next last) :
    Told next last

namespace Told

variable {sessions : List Session} {chronicle : Chronicle} {now : Instant}

theorem ordered (h : Told sessions chronicle) : chronicle.Ordered := by
  induction h
  case empty => exact fun _ => .nil
  case wait hn hi => exact hi.wait hn
  case deed deed _ hr hi => exact hr.ordered (deed.tidy_script _) (Chronicle.clears_none _) hi

-- So are the sessions and the cache of a world that was empty at first.
theorem after {world : World} {pushes : List (String × String)} {last : Instant}
    (h : Told world.sessions ⟨last, world.cache, pushes⟩) (deed : Deed) (refuse : Script.Refusal)
    (hn : last ≤ now) : ∃ pushes, Told (world.after deed refuse now).sessions
      ⟨now, (world.after deed refuse now).cache, pushes⟩ := by
  obtain ⟨pushes, hr⟩ := (deed.script world.sessions).exists_runs refuse [] ⟨now, world.cache, pushes⟩
  rw [World.run_script] at hr
  exact ⟨pushes, (h.wait hn).deed hr⟩

end Told

-- A list that is there names no token twice, and the tokens stand in the order of the latest push of
-- each of them, the last one first.
theorem recent_of_told {sessions : List Session} {chronicle : Chronicle} {now : Instant}
    {key : String} {items : List String} {deadline? : Option Instant}
    (h : Told sessions chronicle) (hn : chronicle.now ≤ now)
    (hl : chronicle.store.live? now key = some ⟨.list items, deadline?⟩) :
    items.Nodup ∧ Recent (chronicle.pushesTo key) items := by
  have hr : Recent (chronicle.pushesTo key) (chronicle.store.listed now key) := h.ordered.wait hn key
  rw [Store.listed_of_live? hl] at hr
  exact ⟨hr.nodup, hr⟩

-- The first of two tokens is written again, which fails half way, and then once more.
theorem recent_after_refusal : ∃ sessions chronicle deadline?, Told sessions chronicle ∧
    chronicle.store.live? 3000 (Key.index "u") = some ⟨.list ["s", "t"], deadline?⟩ ∧
    ["s", "t"].Nodup ∧ Recent (chronicle.pushesTo (Key.index "u")) ["s", "t"] := by
  let fault : Fault := ⟨"lpush", none, .wrongType "identity:index:u" "list"⟩
  let deed (token : String) : Deed := .establish token (.create "u" []) { connected := true }
  let world : World := ⟨.empty, []⟩
  let first := world.after (deed "s") .none 0
  let both := first.after (deed "t") .none 1000
  let failed := both.after (.operate 0 (.restrict [] true)) (Fault.refusal [fault]) 2000
  let last := failed.after (.operate 0 (.save false)) .none 3000
  have hw : Told world.sessions ⟨0, world.cache, []⟩ := .empty
  obtain ⟨_, hw⟩ := hw.after (deed "s") .none (UInt64.le_refl 0)
  obtain ⟨_, hw⟩ := hw.after (deed "t") .none (show (0 : Instant) ≤ 1000 by decide)
  obtain ⟨_, hw⟩ := hw.after (.operate 0 (.restrict [] true)) (Fault.refusal [fault])
    (show (1000 : Instant) ≤ 2000 by decide)
  obtain ⟨pushes, hw⟩ := hw.after (.operate 0 (.save false)) .none
    (show (2000 : Instant) ≤ 3000 by decide)
  have hw : Told last.sessions ⟨3000, last.cache, pushes⟩ := hw
  have hi : last.cache.listed 3000 (Key.index "u") = ["s", "t"] := by decide +kernel
  clear_value last
  have hm : "s" ∈ last.cache.listed 3000 (Key.index "u") := by simp [hi]
  obtain ⟨deadline?, hl⟩ := Store.live?_of_mem_listed hm
  rw [hi] at hl
  exact ⟨_, _, deadline?, hw, hl, recent_of_told hw (UInt64.le_refl 3000) hl⟩

end Entitlement
