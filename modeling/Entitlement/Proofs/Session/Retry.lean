import Entitlement.Proofs.Session.Carrying
import Entitlement.Proofs.Session.Report
import Entitlement.Proofs.Store.Repair
/-!
A record that could not be written in one go. Whichever command fails, the session is as it was before,
and what was done by then does not matter to the next attempt: it comes to the same as if it were the
first one.
-/

namespace Entitlement

namespace Session

variable {session : Session} {held : Held} {record : Record} {never : Bool} {refuse : Script.Refusal}
  {now later : Instant} {sent : List Command} {cache store other : Store} {user : String}

-- In memory a record counts as written when all commands have succeeded, and not before.
theorem session_of_failed (hs : session.state = .held held)
    (h : (outcome (save never) session refuse now sent cache).value.1 ≠ .ok ()) :
    (outcome (save never) session refuse now sent cache).value.2 = session := by
  obtain ⟨hv, _⟩ | ⟨_, _, _, _, _, hv, _⟩ := (carries_save hs never).outcome refuse now sent cache
  · exact absurd (congrArg Prod.fst hv) h
  · exact congrArg Prod.snd hv

-- What a failed attempt has done is what comes before one of the commands that it had to send.
theorem store_of_failed (hs : session.state = .held held) (hm : held.modified = true)
    (h : (outcome (save never) session refuse now sent cache).value.1 ≠ .ok ()) :
    ∃ served command rest, session.writing held.record never = served ++ command :: rest ∧
      (outcome (save never) session refuse now sent cache).store.Alike now
        (cache.serve now served) := by
  have hc := (carries_save hs never).outcome refuse now sent cache
  rw [saving, if_pos hm] at hc
  obtain ⟨hv, _⟩ | ⟨served, command, rest, _, hw, _, ha⟩ := hc
  · exact absurd (congrArg Prod.fst hv) h
  · exact ⟨served, command, rest, hw, ha⟩

-- A command about the record, or else about the place of its token in the index.
def Enters (session : Session) (user : String) (command : Command) : Prop :=
  command.key = Key.record session.token ∨ command = .lrem (Key.index user) 0 session.token ∨
    command = .lpush (Key.index user) session.token

theorem enters_of_mem (session : Session) (record : Record) (never : Bool) :
    ∀ command ∈ (session.writing record never).dropLast, session.Enters record.user.id command := by
  cases never
  case false =>
    change ∀ command ∈ [_, _, _], _
    simp only [List.forall_mem_cons]
    exact ⟨.inl rfl, .inr (.inl rfl), .inr (.inr rfl), List.forall_mem_nil _⟩
  case true =>
    change ∀ command ∈ [_, _, _, _], _
    simp only [List.forall_mem_cons]
    exact ⟨.inl rfl, .inr (.inl rfl), .inr (.inr rfl), .inl rfl, List.forall_mem_nil _⟩

theorem enters_of_cut {served rest : List Command} {command : Command}
    (hw : session.writing record never = served ++ command :: rest) :
    ∀ other ∈ served, session.Enters record.user.id other := by
  refine fun other ho => session.enters_of_mem record never other ?_
  rw [hw, List.dropLast_append_of_ne_nil (List.cons_ne_nil _ _)]
  exact List.mem_append_left _ ho

-- Once the record is written again nothing but the place of its token in the index can differ.
theorem alikeBut_of_enters {served : List Command} (hn : now ≤ later)
    (hs : ∀ command ∈ served, session.Enters user command)
    (ha : store.Alike now (cache.serve now served)) (ttl : UInt64) (data : ByteArray) :
    (store.reply later (.setex (Key.record session.token) ttl data)).2.AlikeBut later
      (Key.index user) session.token
      (cache.reply later (.setex (Key.record session.token) ttl data)).2 := by
  refine Store.alikeBut_setex ttl data (fun name hr hi => ?others) fun hk => ?own
  case others =>
    rw [ha.wait hn]
    refine Store.live?_congr (Store.find?_serve cache now fun command hc => ?_) later
    obtain hk | rfl | rfl := hs command hc
    · exact hk ▸ hr.symm
    · exact hi.symm
    · exact hi.symm
  case own =>
    have hp : ∀ command ∈ served, Store.Shuffles (Key.index user) session.token command :=
      fun command hc ho => (hs command hc).resolve_left fun hr => hk (ho.symm.trans hr)
    rw [ha.wait hn, Store.purged_later hn, Store.purged_serve hn hp, ← Store.purged_later hn]

-- Taking the token out makes up for the difference.
theorem outcome_of_alikeBut {key item : String} (h : store.AlikeBut now key item other)
    (action : Action Unit) :
    let lrem := Command.lrem key 0 item
    let first := outcome (send lrem >>= fun _ => action) session .none now sent store
    let second := outcome (send lrem >>= fun _ => action) session .none now sent other
    first.value = second.value ∧ first.store.Alike now second.store := by
  intro lrem first second
  have hr := h.answer_lrem
  have ha := h.alike_lrem
  simp only [first, second, outcome_bind, outcome_send]
  cases hs : (store.reply now lrem).1 <;> cases ho : (other.reply now lrem).1
  all_goals simp only [lrem, hs, ho, Except.map] at hr
  case error.error =>
    cases hr
    exact ⟨rfl, ha⟩
  case error.ok | ok.error => exact nomatch hr
  case ok.ok => exact Script.run_alike _ .none now _ ha

theorem outcome_save_eq (hs : session.state = .held held) (hm : held.modified = true)
    (never : Bool) : ∃ action : Action Unit, ∀ now sent cache,
      let setex := Command.setex (Key.record session.token) session.lifetime held.record.encode
      outcome (save never) session .none now sent cache =
        outcome (send (.lrem (Key.index held.record.user.id) 0 session.token) >>= fun _ => action)
          session .none now (sent ++ [setex]) (cache.reply now setex).2 := by
  refine ⟨do
    let _ ← send (.lpush (Key.index held.record.user.id) session.token)
    if never then persistBoth held.record.user.id
    else let _ ← send (.expire (Key.index held.record.user.id) session.lifetime)
    setState (.held { held with modified := false }), fun now sent cache => ?_⟩
  rw [save, outcome_held_bind hs, if_pos hm, write, outcome_held_bind hs, outcome_get_bind,
    outcome_send_bind rfl]

-- A command that is refused makes an attempt fail, and says so. Whenever an attempt has failed, the
-- session is as before, and the next attempt comes to what it would have come to without the first one:
-- it has the same answer, and the same is live in the cache.
theorem retried_as_once (session : Session) (never : Bool) (refuse : Script.Refusal)
    (now later : Instant) (cache : Store) (hm : session.isModified) (hn : now ≤ later) :
    let first := outcome (save never) session refuse now [] cache
    (∀ before command cause, before ++ [command] <+: first.sent → refuse before command = some cause →
      first.value.1 = .error (.store command.name cause)) ∧
    (first.value.1 ≠ .ok () →
      let retry := outcome (save never) first.value.2 .none later [] first.store
      let once := outcome (save never) session .none later [] cache
      first.value.2 = session ∧ retry.value = once.value ∧
        retry.store.Alike later once.store) := by
  intro first
  obtain ⟨held, hs, hm⟩ : ∃ held, session.state = .held held ∧ held.modified = true := by
    rw [isModified] at hm
    split at hm
    case h_1 held hs => exact ⟨held, hs, hm⟩
    case h_2 => cases hm
  constructor
  case left =>
    intro before command cause hb hr
    let script := perform (save never) session
    have he : first.sent = (script.heard refuse now [] cache).map Exchange.command :=
      script.sent_run refuse now [] cache
    have hx : ⟨command, .error cause⟩ ∈ script.heard refuse now [] cache :=
      script.mem_heard_of_refused refuse now [] cache (he ▸ hb) hr
    exact (composed_save.reports session _ _ (script.hears_heard ..)).answer_eq hx Bool.false_ne_true
  case right =>
    intro hf
    have hk : first.value.2 = session := session_of_failed hs hf
    obtain ⟨served, command, rest, hw, ha⟩ := store_of_failed hs hm hf
    obtain ⟨action, he⟩ := outcome_save_eq hs hm never
    intro retry once
    refine ⟨hk, ?_⟩
    simp only [retry, once]
    rw [hk, he, he]
    exact outcome_of_alikeBut (alikeBut_of_enters hn (enters_of_cut hw) ha _ _) action

-- The token is out of the index when the first attempt fails, and then the rest of the index is over,
-- too, before the next one.
theorem retried_after_refusal : ∃ (session : Session) (refuse : Script.Refusal) (cache : Store),
    cache.listed 1000 (Key.index "u") = ["s", "t"] ∧
    (outcome (save false) session refuse 1000 [] cache).store.listed 1000 (Key.index "u") = ["s"] ∧
    (outcome (save false) session refuse 1000 [] cache).value.1 =
      .error (.store "lpush" (.unavailable "away")) ∧
    (let first := outcome (save false) session refuse 1000 [] cache
      let retry := outcome (save false) first.value.2 .none 5000 [] first.store
      let once := outcome (save false) session .none 5000 [] cache
      first.value.2 = session ∧ retry.value = once.value ∧ retry.store.Alike 5000 once.store) ∧
    (outcome (save false) session .none 5000 [] cache).value.1 = .ok () ∧
    (outcome (save false) session .none 5000 [] cache).store.listed 5000 (Key.index "u") = ["t"] := by
  let session : Session := ⟨"t", 3600, true, .held (.of (.create "u" []) true)⟩
  let refuse := Fault.refusal [⟨"lpush", none, .unavailable "away"⟩]
  let cache : Store := .ofList [(Key.index "u", ⟨.list ["s", "t"], some 4000⟩)]
  have h := retried_as_once session false refuse 1000 5000 cache rfl (by decide)
  have hs : (outcome (save false) session refuse 1000 [] cache).sent.map Command.name =
      ["setex", "lrem"] ++ ["lpush"] := by decide +kernel
  obtain ⟨before, last, hb, _, hl⟩ := List.map_eq_append_iff.mp hs
  obtain ⟨command, rfl, hc⟩ := List.map_eq_singleton_iff.mp hl
  have hr : refuse before command = some (.unavailable "away") := by
    simp [refuse, Fault.refusal, Fault.hits, hc]
  have hf : (outcome (save false) session refuse 1000 [] cache).value.1 =
      .error (.store "lpush" (.unavailable "away")) :=
    hc ▸ h.1 before command _ (hb ▸ List.prefix_rfl) hr
  have hn : (outcome (save false) session refuse 1000 [] cache).value.1 ≠ .ok () := by
    rw [hf]
    exact nofun
  refine ⟨session, refuse, cache, ?_, ?_, hf, h.2 hn, ?_, ?_⟩
  all_goals decide +kernel

end Session
end Entitlement
