import Entitlement.Proofs.Session.Endless
import Entitlement.Proofs.Session.Enlist
import Entitlement.Proofs.Store.Crowd
/-!
Sessions of one user at work at the same time. Each of them writes its record or takes it out, and
the cache serves their commands in any order. What they do to the index they share does not get lost.
-/

namespace Entitlement

inductive Task where
  | save (never : Bool)
  | remove
deriving DecidableEq

namespace Task

def operation : Task → Operation
  | save never => .save never
  | remove => .remove

-- A record that was modified is written as a whole.
def part : Task → Part
  | save never => .write never
  | remove => .remove

end Task

-- A session of a user with a record in memory, and what it is going to do.
structure Errand (user : String) where
  session : Session
  held : Held
  config : Config
  task : Task
  state : session.state = .held held
  user : held.record.user.id = user
  lifetime : session.lifetime = config.lifetime
  plain : Key.Plain session.token
  modified : ∀ never, task = .save never → held.modified = true

namespace Session

variable {session : Session} {held : Held} {α : Type} {commands : List Command}
  {value : Except AccessError α × Session}

theorem follows_bind {action : Action β} {f : β → Action α} {last : Session} {result : β}
    (ha : (perform action session).Follows (.ok result, last) commands)
    (hf : (perform (f result) last).Follows value more) :
    (perform (action >>= f) session).Follows value (commands ++ more) := by
  rw [perform_bind]
  exact ha.bind hf

theorem follows_send {f : command.Reply → Action α}
    (h : ∀ reply, (perform (f reply) session).Follows value commands) :
    (perform (send command >>= f) session).Follows value (command :: commands) := by
  change (Script.send command _).Follows _ _
  exact .send h

theorem follows_held {f : Held → Action α} (hs : session.state = .held held)
    (h : (perform (f held) session).Follows value commands) :
    (perform (Session.held >>= f) session).Follows value commands := by
  rwa [perform_bind, perform_held hs]

theorem follows_user (hs : session.state = .held held) :
    (perform user session).Follows (.ok held.record.user.id, session) [] :=
  follows_held hs .done

theorem follows_setState (state : State) :
    (perform (setState state) session).Follows (.ok (), { session with state }) [] :=
  .done

theorem follows_persistBoth (user : String) :
    (perform (persistBoth user) session).Follows (.ok (), session)
      (persisting session.token user) := by
  change (perform (send _ >>= _) session).Follows _ _
  exact follows_send fun _ => follows_send fun _ => .done

theorem follows_write (hs : session.state = .held held) (never : Bool) :
    (perform (write never) session).Follows
      (.ok (), { session with state := .held { held with modified := false } })
      (session.writing held.record never) := by
  refine follows_held hs ?_
  change (perform (send _ >>= _) session).Follows _ _
  refine follows_send fun _ => follows_send fun _ => follows_send fun _ => ?_
  cases never
  case false => exact follows_send fun _ => follows_setState _
  case true =>
    change Script.Follows _ (persisting session.token held.record.user.id ++ []) _
    exact follows_bind (follows_persistBoth _) (follows_setState _)

theorem follows_save (hs : session.state = .held held) (hm : held.modified = true)
    (never : Bool) : (perform (save never) session).Follows
      (.ok (), { session with state := .held { held with modified := false } })
      (session.writing held.record never) := by
  refine follows_held hs ?_
  rw [if_pos hm]
  exact follows_write hs never

theorem follows_remove (hs : session.state = .held held) :
    (perform remove session).Follows (.ok (), { session with state := .removed })
      (removing session.token held.record.user.id) := by
  refine follows_bind (follows_user hs) ?_
  change (perform (send _ >>= _) session).Follows _ _
  exact follows_send fun _ => follows_send fun _ => follows_setState _

end Session

namespace Errand

variable {user : String} (errand : Errand user)

def token : String :=
  errand.session.token

def script : Script (Except AccessError Unit × Session) :=
  Session.perform errand.task.operation.action errand.session

def plan : Plan (Except AccessError Unit × Session) where
  commands := errand.task.part.commands errand.session errand.held.record
  value := (.ok (), { errand.session with state := errand.task.part.leaves errand.held })

theorem follows : errand.script.Follows errand.plan.value errand.plan.commands := by
  obtain ⟨session, held, config, task, hs, _, _, _, hm⟩ := errand
  cases task
  case save never => exact Session.follows_save hs (hm never rfl) never
  case remove => exact Session.follows_remove hs

theorem apart : Key.index user ≠ Key.record errand.token :=
  errand.plain.apart user

variable {errand} {command : Command} {now : Instant}

-- What is sent about the record is the errand's own, and all that is sent about the index puts its
-- token in or takes it out.
inductive Sends (errand : Errand user) (now : Instant) : Command → Prop
  | record {command : Command} (hk : command.key = Key.record errand.token) (hi : command.item? = none)
    (ha : ∀ cache : Store, ∃ reply, (cache.reply now command).1 = .ok reply) :
    Sends errand now command
  | index {command : Command} (hk : command.key = Key.index user) (he : command.Edits now)
    (hi : command.item? = none ∨ command.item? = some errand.token) : Sends errand now command

theorem sends (errand : Errand user) (hn : now < Instant.last) :
    ∀ command ∈ errand.plan.commands, errand.Sends now command := by
  obtain ⟨session, held, config, task, _, rfl, hl, _, _⟩ := errand
  have hz : session.lifetime ≠ 0 := hl ▸ config.lifetime_ne_zero
  have hd : now < Store.deadline now session.lifetime := Store.lt_deadline hn hz
  cases task
  case remove =>
    simp only [plan, Task.part, Part.commands, Session.removing, List.forall_mem_cons]
    exact ⟨.record rfl rfl fun _ => ⟨_, rfl⟩, .index rfl rfl (.inr rfl), List.forall_mem_nil _⟩
  case save never _ =>
    change ∀ command ∈ session.writing held.record never, _
    simp only [Session.writing, List.cons_append, List.nil_append, List.forall_mem_cons]
    refine ⟨.record rfl rfl fun _ => ⟨_, rfl⟩, .index rfl rfl (.inr rfl),
      .index rfl trivial (.inr rfl), ?_⟩
    cases never
    case false => exact List.forall_mem_singleton.mpr (.index rfl ⟨hz, hd⟩ (.inl rfl))
    case true =>
      refine List.forall_mem_cons.mpr ⟨.record rfl rfl fun _ => ⟨_, rfl⟩, ?_⟩
      exact List.forall_mem_singleton.mpr (.index rfl trivial (.inl rfl))

theorem Sends.answered (h : errand.Sends now command) {cache : Store}
    (hl : cache.Listable now (Key.index user)) :
    ∃ reply, (cache.reply now command).1 = .ok reply := by
  cases h
  case record ha => exact ha cache
  case index hk he _ => exact Store.Listable.answered (hk ▸ hl) he

theorem Sends.edits (h : errand.Sends now command) (hk : command.key = Key.index user) :
    command.Edits now := by
  cases h
  case record hr _ _ => exact absurd (hk.symm.trans hr) errand.apart
  case index he _ => exact he

theorem Sends.item_eq {item : String} (h : errand.Sends now command) (hi : command.item? = some item) :
    item = errand.token := by
  cases h
  case record hn _ => simp [hi] at hn
  case index ho => simpa [hi] using ho

theorem Sends.key_eq {other : String} (h : errand.Sends now command)
    (hk : command.key = Key.record other) (ho : Key.Plain other) : other = errand.token := by
  cases h
  case record hr _ _ => exact Key.record_inj.mp (hk.symm.trans hr)
  case index hr _ _ => exact absurd (hr.symm.trans hk) (ho.apart user)

theorem listable_reply (h : errand.Sends now command) {cache : Store}
    (hl : cache.Listable now (Key.index user)) :
    (cache.reply now command).2.Listable now (Key.index user) :=
  hl.reply (Store.Command.Edits.ne_setex h.edits)

theorem saved_alone {cache : Store} (hn : now < Instant.last)
    (hl : cache.Listable now (Key.index user)) (ht : errand.task = .save never) :
    ((cache.serve now errand.plan.commands).listed now (Key.index user)).filter
      (· = errand.token) = [errand.token] ∧
    ∃ deadline?, (cache.serve now errand.plan.commands).live? now (Key.record errand.token) =
      some ⟨.bytes errand.held.record.encode, deadline?⟩ := by
  obtain ⟨session, held, config, task, _, rfl, hc, hp, _⟩ := errand
  subst ht
  have hz : session.lifetime ≠ 0 := hc ▸ config.lifetime_ne_zero
  have hd : now < Store.deadline now session.lifetime := Store.lt_deadline hn hz
  have hk := hp.apart held.record.user.id
  change List.filter (· = session.token) ((cache.serve now
    (session.writing held.record never)).listed now (Key.index held.record.user.id)) =
      [session.token] ∧ ∃ deadline?, (cache.serve now (session.writing held.record never)).live? now
        (Key.record session.token) = some ⟨.bytes held.record.encode, deadline?⟩
  constructor
  case left =>
    obtain he | ⟨_, _, hn⟩ := Store.listed_writing hz hk hl never
    · simp [he, List.filter_filter]
    · exact absurd hd hn
  case right =>
    rw [Session.live?_record_writing hk]
    cases never
    all_goals simp [Option.filter, Store.Slot.isExpired, hd]

theorem removed_alone {cache : Store} (hl : cache.Listable now (Key.index user))
    (ht : errand.task = .remove) :
    ((cache.serve now errand.plan.commands).listed now (Key.index user)).filter
      (· = errand.token) = [] ∧
    (cache.serve now errand.plan.commands).live? now (Key.record errand.token) = none := by
  obtain ⟨session, held, config, task, _, rfl, _, hp, _⟩ := errand
  subst ht
  have hk := hp.apart held.record.user.id
  change List.filter (· = session.token) ((cache.serve now
    (Session.removing session.token held.record.user.id)).listed now
      (Key.index held.record.user.id)) = [] ∧
    (cache.serve now (Session.removing session.token held.record.user.id)).live? now
      (Key.record session.token) = none
  exact ⟨by simp [Store.listed_removing hk hl, List.filter_filter],
    Session.live?_record_removing hk⟩

end Errand

variable {user : String} {errands : List (Errand user)} {cache : Store} {now : Instant}

-- The sessions at the outset.
def crowd (errands : List (Errand user)) (cache : Store) :
    Crowd (Except AccessError Unit × Session) where
  scripts := errands.map Errand.script
  cache := cache

theorem upheld (errands : List (Errand user)) (hn : now < Instant.last) :
    Crowd.Upheld (errands.map Errand.plan) now (·.Listable now (Key.index user)) := by
  intro plan hp command hc cache hl
  obtain ⟨errand, _, rfl⟩ := List.mem_map.mp hp
  have hs := errand.sends hn command hc
  exact ⟨hs.answered hl, Errand.listable_reply hs hl⟩

-- Once all are done, each session finds its record and its token in the index as if it had been alone.
section Alone

variable {served : List (Nat × Command)} {last : Crowd (Except AccessError Unit × Session)}
  {errand next : Errand user} {place other : Nat} {command : Command}

theorem place_eq (ht : (errands.map Errand.token).Nodup) (hp : errands[place]? = some errand)
    (ho : errands[other]? = some next) (he : next.token = errand.token) : other = place := by
  have hl : other < (errands.map Errand.token).length := by
    simpa using (List.getElem?_eq_some_iff.mp ho).1
  exact (List.getElem?_inj hl ht).mp (by simp [hp, ho, he])

theorem plan_at (h : errands[place]? = some errand) :
    (errands.map Errand.plan)[place]? = some errand.plan := by
  rw [List.getElem?_map, h]
  rfl

theorem sends_of_plan {plan : Plan (Except AccessError Unit × Session)} (hn : now < Instant.last)
    (h : (errands.map Errand.plan)[place]? = some plan) (hc : command ∈ plan.commands) :
    ∃ errand, errands[place]? = some errand ∧ errand.Sends now command := by
  rw [List.getElem?_map] at h
  obtain ⟨errand, he, rfl⟩ := Option.map_eq_some_iff.mp h
  exact ⟨errand, he, errand.sends hn command hc⟩

theorem edits_of_served (h : Crowd.Under (errands.map Errand.plan) now cache served last)
    (hn : now < Instant.last) : ∀ command ∈ served.map Prod.snd,
      command.key = Key.index user → command.Edits now := by
  refine List.forall_mem_map.mpr fun entry he => ?_
  have ⟨plan, hp, hm⟩ := h.mem_commands he
  have ⟨errand, _, hs⟩ := sends_of_plan hn hp hm
  exact hs.edits

theorem live?_record_alone (h : Crowd.Under (errands.map Errand.plan) now cache served last)
    (hf : last.Finished) (ht : (errands.map Errand.token).Nodup) (hn : now < Instant.last)
    (he : errand ∈ errands) : last.cache.live? now (Key.record errand.token) =
      (cache.serve now errand.plan.commands).live? now (Key.record errand.token) := by
  have ⟨place, hp⟩ := List.getElem?_of_mem he
  rw [h.cache, ← Store.live?_serve_filter, ← Store.live?_serve_filter cache now errand.plan.commands,
    h.filter_eq hf (plan_at hp)]
  intro other plan ho command hc hk
  have ⟨next, ho, hs⟩ := sends_of_plan hn ho hc
  exact place_eq ht hp ho (hs.key_eq (of_decide_eq_true hk) errand.plain).symm

theorem listed_alone (h : Crowd.Under (errands.map Errand.plan) now cache served last)
    (hf : last.Finished) (ht : (errands.map Errand.token).Nodup) (hn : now < Instant.last)
    (hl : cache.Listable now (Key.index user)) (he : errand ∈ errands) :
    (last.cache.listed now (Key.index user)).filter (· = errand.token) =
      ((cache.serve now errand.plan.commands).listed now (Key.index user)).filter
        (· = errand.token) := by
  have ⟨place, hp⟩ := List.getElem?_of_mem he
  rw [h.cache]
  refine hl.filter_listed_congr (edits_of_served h hn)
    (fun command hc => (errand.sends hn command hc).edits)
    (h.filter_eq hf (plan_at hp) ?_)
  intro other plan ho command hc hi
  have ⟨next, ho, hs⟩ := sends_of_plan hn ho hc
  have hi : command.item? = some errand.token := by simp_all [Option.any_eq_true]
  exact place_eq ht hp ho (hs.item_eq hi).symm

theorem listed_others (h : Crowd.Under (errands.map Errand.plan) now cache served last)
    (hn : now < Instant.last) (hl : cache.Listable now (Key.index user)) :
    (last.cache.listed now (Key.index user)).filter (· ∉ errands.map Errand.token) =
      (cache.listed now (Key.index user)).filter (· ∉ errands.map Errand.token) := by
  rw [h.cache]
  change _ = ((cache.serve now []).listed now (Key.index user)).filter _
  refine hl.filter_listed_congr (edits_of_served h hn) (fun command hc => nomatch hc) ?_
  refine List.filter_eq_nil_iff.mpr fun command hc hi => ?_
  obtain ⟨entry, he, rfl⟩ := List.mem_map.mp hc
  have ⟨plan, hp, hm⟩ := h.mem_commands he
  have ⟨errand, ho, hs⟩ := sends_of_plan hn hp hm
  obtain ⟨item, hi, hu⟩ : ∃ item, entry.2.item? = some item ∧ item ∉ errands.map Errand.token := by
    simp_all [Option.any_eq_true]
  exact hu (hs.item_eq hi ▸ List.mem_map_of_mem (List.mem_of_getElem? ho))

end Alone

-- Each record that was written is there and listed once, each one that was taken out is neither, and
-- of the other tokens the index lists what it did before, in the same order.
structure Settled (errands : List (Errand user)) (now : Instant) (before after : Store) : Prop where
  listable : after.Listable now (Key.index user)
  saved : ∀ errand ∈ errands, ∀ never, errand.task = .save never →
    (after.listed now (Key.index user)).count errand.token = 1 ∧
      ∃ deadline?, after.live? now (Key.record errand.token) =
        some ⟨.bytes errand.held.record.encode, deadline?⟩
  removed : ∀ errand ∈ errands, errand.task = .remove →
    errand.token ∉ after.listed now (Key.index user) ∧
      after.live? now (Key.record errand.token) = none
  others : (after.listed now (Key.index user)).filter (· ∉ errands.map Errand.token) =
    (before.listed now (Key.index user)).filter (· ∉ errands.map Errand.token)

-- In whatever order the commands are served, all sessions can come to their end, and then they have
-- succeeded and nothing is lost.
theorem settled_of_finished (errands : List (Errand user))
    (ht : (errands.map Errand.token).Nodup) (hn : now < Instant.last)
    (hl : cache.Listable now (Key.index user)) (order : List Nat) :
    let last := (crowd errands cache).run now order
    (∃ more, (last.run now more).Finished) ∧
      (last.Finished → Settled errands now cache last.cache ∧
        last.scripts = errands.map fun errand => .done errand.plan.value) := by
  refine ⟨Crowd.exists_finished _, fun hf => ?_⟩
  have hb : Crowd.Under (errands.map Errand.plan) now cache [] (crowd errands cache) :=
    .begin (fun errand _ => errand.follows) cache
  have ⟨served, h, hi⟩ := hb.run (upheld errands hn) hl order
  refine ⟨⟨hi, ?saved, ?removed, listed_others h hn hl⟩, (h.scripts_eq hf).trans (by simp)⟩
  case saved =>
    intro errand he never ht'
    have ⟨ha, hr⟩ := Errand.saved_alone hn hl ht'
    rw [← listed_alone h hf ht hn hl he] at ha
    refine ⟨?_, live?_record_alone h hf ht hn he ▸ hr⟩
    rw [List.count_eq_length_filter]
    exact congrArg List.length ha
  case removed =>
    intro errand he ht'
    have ⟨ha, hr⟩ := Errand.removed_alone hl ht'
    rw [← listed_alone h hf ht hn hl he] at ha
    refine ⟨fun hm => ?_, live?_record_alone h hf ht hn he ▸ hr⟩
    exact List.filter_eq_nil_iff.mp ha _ hm (decide_eq_true rfl)

-- One session writes its record while another one, in the middle of that, takes out its own.
theorem settled_in_turns : ∃ (errands : List (Errand "u")) (cache : Store) (order : List Nat),
    errands.map Errand.token = ["s", "t"] ∧ errands.map Errand.task = [.save false, .remove] ∧
    cache.listed 0 (Key.index "u") = ["s", "t", "x", "s"] ∧
    Settled errands 0 cache ((crowd errands cache).run 0 order).cache ∧
    ((crowd errands cache).run 0 order).cache.listed 0 (Key.index "u") = ["s", "x"] := by
  let held : Held := .of (.create "u" []) true
  let saving : Errand "u" :=
    ⟨⟨"s", 3600, true, .held held⟩, held, {}, .save false, rfl, rfl, rfl, by decide, fun _ _ => rfl⟩
  let removing : Errand "u" :=
    ⟨⟨"t", 3600, true, .held held⟩, held, {}, .remove, rfl, rfl, rfl, by decide, nofun⟩
  let cache : Store := .ofList [(Key.index "u", ⟨.list ["s", "t", "x", "s"], none⟩)]
  have hl : cache.Listable 0 (Key.index "u") := by
    intro slot data hd hb
    have he : cache.live? 0 (Key.index "u") = some ⟨.list ["s", "t", "x", "s"], none⟩ := rfl
    cases he.symm.trans hd
    exact nomatch hb
  have ⟨_, hf⟩ := settled_of_finished [saving, removing] (by decide) (by decide) hl
    [0, 1, 0, 1, 0, 0]
  exact ⟨[saving, removing], cache, [0, 1, 0, 1, 0, 0], rfl, rfl, by decide +kernel,
    (hf (by decide +kernel)).1, by decide +kernel⟩

end Entitlement
