import Entitlement.Proofs.Session.Endless
import Entitlement.Proofs.Session.Report
/-!
Removing an identity. Nothing is left of it, and the session that has removed it does nothing any more:
it neither loads the identity again nor writes it. The tokens that are listed with it stay where they
are. Only at the last instant there is a lifetime is over as soon as it is given, and so is the list.
-/

namespace Entitlement

variable {session : Session} {held : Held} {record : Record} {now later : Instant} {cache : Store}
  {sent : List Command} {token user : String}

theorem Instant.le_last (now : Instant) : now ≤ last :=
  UInt64.le_iff_toNat_le.mpr (Nat.le_sub_one_of_lt now.toNat_lt)

namespace Store

-- One record and the index of its user, both without an end.
def keeping (token : String) (record : Record) (items : List String) : Store :=
  (empty.insert (Key.record token) ⟨.bytes record.encode, none⟩).insert (Key.index record.user.id)
    ⟨.list items, none⟩

theorem live?_index_keeping (now : Instant) (items : List String) :
    (keeping token record items).live? now (Key.index record.user.id) = some ⟨.list items, none⟩ := by
  rw [live?, keeping, find?_insert, if_pos rfl]
  rfl

theorem get_keeping (hp : Key.Plain token) (now : Instant) (items : List String) :
    (keeping token record items).get now (Key.record token) = .ok (some record.encode) := by
  have hl : (keeping token record items).live? now (Key.record token) =
      some ⟨.bytes record.encode, none⟩ := by
    rw [live?, keeping, find?_insert, if_neg (hp.apart record.user.id).symm, find?_insert, if_pos rfl]
    rfl
  rw [get, hl]

theorem listed_keeping :
    (keeping token record items).listed now (Key.index record.user.id) = items :=
  listed_of_live? (live?_index_keeping now items)

theorem listable_keeping :
    (keeping token record items).Listable now (Key.index record.user.id) := by
  intro slot data hl hd
  cases (live?_index_keeping now items).symm.trans hl
  cases hd

end Store

namespace Session

-- The record that a session is about: the one in memory, or else the one that it finds.
def subject? (session : Session) (now : Instant) (cache : Store) : Option Record :=
  match session.state with
  | .held held => some held.record
  | .unloaded => (session.found now cache).toOption
  | .removed => none

-- The record has to be loaded, and there is no time left for the lifetime that it gets then.
structure Lapses (session : Session) (now : Instant) : Prop where
  state : session.state = .unloaded
  refresh : session.refreshOnLoad = true
  last : now = Instant.last

theorem perform_ask_of_removed (hs : session.state = .removed) (operation : Operation) :
    perform operation.ask session = pure (.error (.removed session.token), session) := by
  cases session
  cases hs
  cases operation <;> rfl

-- A session that has removed its identity has the same answer to everything.
theorem converse_of_removed (hs : session.state = .removed) (operations : List Operation) :
    converse Operation.ask operations session =
      pure (operations.map fun operation => ⟨operation, .error (.removed session.token)⟩, session) := by
  induction operations
  case nil => rfl
  case cons operation operations hi => simp [converse, perform_ask_of_removed hs, hi]

-- The index can only be written if it is a list.
theorem listable_of_removed (hs : session.state = .held held)
    (hk : Key.index held.record.user.id ≠ Key.record session.token)
    (h : (outcome remove session .none now sent cache).value.1 = .ok ()) :
    cache.Listable now (Key.index held.record.user.id) := by
  let deleted := (cache.reply now (.delete (Key.record session.token))).2
  have hd : deleted.Listable now (Key.index held.record.user.id) := by
    rw [remove, outcome_bind, outcome_user hs] at h
    dsimp only at h
    rw [outcome_get_bind, outcome_send_bind rfl, outcome_bind, outcome_send] at h
    cases hr : (deleted.reply now (.lrem (Key.index held.record.user.id) 0 session.token)).1
    case ok => exact Store.listable_of_lrem hr
    case error =>
      dsimp only at h
      rw [hr] at h
      cases h
  intro slot data hl
  exact hd slot data ((cache.live?_reply_of_ne now now hk).trans hl)

-- What becomes of a session and the cache when a record is removed that was loaded before.
structure Removed (session : Session) (now : Instant) (user : String) (cache : Store)
    (outcome : Script.Outcome (Except AccessError Unit × Session)) : Prop where
  value : outcome.value = (.ok (), { session with state := .removed })
  record : outcome.store.live? now (Key.record session.token) = none
  listed : outcome.store.listed now (Key.index user) =
    (cache.listed now (Key.index user)).filter (· ≠ session.token)

theorem removed_of_held (hs : session.state = .held held)
    (hk : Key.index held.record.user.id ≠ Key.record session.token)
    (h : (outcome remove session .none now sent cache).value.1 = .ok ()) :
    session.Removed now held.record.user.id cache (outcome remove session .none now sent cache) := by
  have hl := listable_of_removed hs hk h
  rw [outcome_remove hs hl]
  exact ⟨rfl, live?_record_removing hk, Store.listed_removing hk hl⟩

-- At the last instant a lifetime that is given is over at once.
theorem live?_expiring_last (hk : Key.index user ≠ Key.record token) (seconds : UInt64) :
    (cache.serve Instant.last (expiring token user seconds)).live? Instant.last (Key.index user) =
      none := by
  have hd : Store.deadline Instant.last seconds ≤ Instant.last := Instant.le_last _
  rw [live?_expiring hk (.inr rfl)]
  cases cache.live? Instant.last (Key.index user)
  all_goals simp [Option.filter, Store.Slot.isExpired, hd]

theorem listed_arriving (hk : Key.index user ≠ Key.record session.token) (hz : session.lifetime ≠ 0)
    (hn : session.refreshOnLoad = true → now < Instant.last) :
    (cache.serve now (session.arriving user)).listed now (Key.index user) =
      cache.listed now (Key.index user) := by
  rw [arriving]
  split
  case isTrue hr =>
    obtain he | ⟨_, hd⟩ := Store.listed_expiring cache now hk session.lifetime
    · exact he
    · exact (hd.elim hz (absurd (Store.lt_deadline (hn hr) hz))).elim
  case isFalse => rfl

theorem outcome_remove_of_found (hs : session.state = .unloaded)
    (hf : session.found now cache = .ok record) :
    outcome remove session .none now sent cache =
      outcome remove { session with state := .held (.of record false) } .none now
        (sent ++ .get (Key.record session.token) :: session.arriving record.user.id)
        (cache.serve now (session.arriving record.user.id)) := by
  have hb : Begins remove := .bind .held
  have hr : session.state ≠ .removed := hs ▸ nofun
  rw [hb.outcome_of_unloaded hs, outcome_load hr, hf]

theorem found_of_keeping (hp : Key.Plain session.token) (hb : record.Bare) :
    session.found now (.keeping session.token record items) = .ok record := by
  simp only [found, Store.get_keeping hp, hb.decode?_encode]

-- A record that is found is removed, unless its index is no list.
theorem value_remove_of_found (hs : session.state = .unloaded)
    (hf : session.found now cache = .ok record)
    (hl : cache.Listable now (Key.index record.user.id)) :
    (outcome remove session .none now sent cache).value.1 = .ok () := by
  let held : Held := .of record false
  have ha : (cache.serve now (session.arriving record.user.id)).Listable now
      (Key.index held.record.user.id) := by
    refine hl.spared fun command hm => ?_
    rw [arriving] at hm
    split at hm
    case isTrue =>
      rintro ttl data rfl
      simp [expiring] at hm
    case isFalse => cases hm
  have hh : ({ session with state := .held held } : Session).state = .held held := rfl
  rw [outcome_remove_of_found hs hf, outcome_remove hh ha]

-- The record that is removed is the one that was found, if none was in memory.
theorem removed_of_unloaded (hs : session.state = .unloaded) (hp : Key.Plain session.token)
    (h : (outcome remove session .none now sent cache).value.1 = .ok ()) :
    ∃ record, session.found now cache = .ok record ∧ session.Removed now record.user.id
      (cache.serve now (session.arriving record.user.id))
        (outcome remove session .none now sent cache) := by
  cases hf : session.found now cache
  case error error =>
    have hb : Begins remove := .bind .held
    have hr : session.state ≠ .removed := hs ▸ nofun
    rw [hb.outcome_of_unloaded hs, outcome_load hr, hf] at h
    cases h
  case ok record =>
    rw [outcome_remove_of_found hs hf] at h ⊢
    have hd := removed_of_held rfl (hp.apart record.user.id) h
    exact ⟨record, rfl, hd.value, hd.record, hd.listed⟩

theorem removed_of_ok (hp : Key.Plain session.token) (hz : session.lifetime ≠ 0)
    (h : (outcome remove session .none now sent cache).value.1 = .ok ()) :
    ∃ record before, session.subject? now cache = some record ∧
      session.Removed now record.user.id before (outcome remove session .none now sent cache) ∧
        (¬session.Lapses now → before.listed now (Key.index record.user.id) =
          cache.listed now (Key.index record.user.id)) ∧
        (session.Lapses now → before.listed now (Key.index record.user.id) = []) := by
  cases hs : session.state
  case removed =>
    have hb : Begins remove := .bind .held
    rw [hb.outcome_of_removed hs] at h
    cases h
  case held held =>
    refine ⟨held.record, cache, by rw [subject?, hs], removed_of_held hs (hp.apart _) h, ?_, ?_⟩
    · exact fun _ => rfl
    · exact fun hl => nomatch hs.symm.trans hl.state
  case unloaded =>
    have ⟨record, hf, hd⟩ := removed_of_unloaded hs hp h
    refine ⟨record, _, by simp [subject?, hs, hf, Except.toOption], hd, fun hl => ?_, fun hl => ?_⟩
    · refine listed_arriving (hp.apart _) hz fun hr => ?_
      exact UInt64.lt_of_le_of_ne (Instant.le_last now) fun hn => hl ⟨hs, hr, hn⟩
    · have hn := hl.last
      subst hn
      rw [Store.listed, arriving, if_pos hl.refresh, live?_expiring_last (hp.apart _)]
      rfl

-- When removing an identity has succeeded, nothing can be found under its token, and the index of its
-- user lists the other tokens as before, unless the list has lapsed. Whatever the session is asked for
-- then, it sends no command, says that the identity was removed, and stays as it is.
theorem removed_for_good (hp : Key.Plain session.token) (hz : session.lifetime ≠ 0)
    (h : (outcome remove session refuse now sent cache).value.1 = .ok ()) :
    let done := outcome remove session refuse now sent cache
    ∃ record, session.subject? now cache = some record ∧
      (∀ later, now ≤ later → done.store.live? later (Key.record session.token) = none ∧
        session.token ∉ done.store.listed later (Key.index record.user.id)) ∧
      (¬session.Lapses now → done.store.listed now (Key.index record.user.id) =
        (cache.listed now (Key.index record.user.id)).filter (· ≠ session.token)) ∧
      (session.Lapses now → done.store.listed now (Key.index record.user.id) = []) ∧
      done.value.2 = { session with state := .removed } ∧
      ∀ operations, converse Operation.ask operations done.value.2 =
        pure (operations.map fun operation => ⟨operation, .error (.removed session.token)⟩,
          done.value.2) := by
  intro done
  have hd : done = outcome remove session .none now sent cache := composed_remove.outcome_of_ok h
  have h : done.value.1 = .ok () := h
  rw [hd] at h
  have ⟨record, before, hr, hm, hb, hl⟩ := removed_of_ok hp hz h
  rw [← hd] at hm
  refine ⟨record, hr, fun later hn => ⟨?_, fun ht => ?_⟩, fun hn => ?_, fun hn => ?_, ?_, ?_⟩
  · exact Store.live?_eq_none_later hm.record hn
  · have ht := Store.mem_listed_of_later hn ht
    rw [hm.listed] at ht
    simp at ht
  · rw [hm.listed, hb hn]
  · rw [hm.listed, hl hn, List.filter_nil]
  · rw [hm.value]
  · rw [hm.value]
    exact converse_of_removed rfl

-- One of three identities of a user is removed by a session that loads it first.
theorem removed_beside_others :
    let session : Session := .fresh "t" { connected := true }
    let cache : Store := .keeping "t" (.create "u" []) ["s", "t", "r"]
    Key.Plain session.token ∧ session.lifetime ≠ 0 ∧ ¬session.Lapses 0 ∧
      (outcome remove session .none 0 [] cache).value.1 = .ok () ∧
        (outcome remove session .none 0 [] cache).store.listed 0 (Key.index "u") = ["s", "r"] := by
  intro session cache
  have hp : Key.Plain session.token := by decide
  have hz : session.lifetime ≠ 0 := by decide
  have hf : session.found 0 cache = .ok (.create "u" []) := found_of_keeping hp ⟨rfl, rfl⟩
  have hv : (outcome remove session .none 0 [] cache).value.1 = .ok () :=
    value_remove_of_found rfl hf Store.listable_keeping
  have hn : ¬session.Lapses 0 := fun hl => absurd hl.last (by decide)
  refine ⟨hp, hz, hn, hv, ?_⟩
  obtain ⟨other, hs, _, hl, _⟩ := removed_for_good hp hz hv
  rw [subject?, hf] at hs
  cases hs
  exact (hl hn).trans (congrArg (List.filter _) Store.listed_keeping)

-- At the last instant the list of the other identities is lost.
theorem list_lost_with_removal :
    let session : Session := .fresh "t" { connected := true }
    let cache : Store := .keeping "t" (.create "u" []) ["s", "t", "r"]
    Key.Plain session.token ∧ session.lifetime ≠ 0 ∧
      session.subject? Instant.last cache = some (.create "u" []) ∧
      (outcome remove session .none Instant.last [] cache).value.1 = .ok () ∧
        (outcome remove session .none Instant.last [] cache).store.listed Instant.last
          (Key.index "u") ≠
            (cache.listed Instant.last (Key.index "u")).filter (· ≠ session.token) := by
  intro session cache
  have hp : Key.Plain session.token := by decide
  have hz : session.lifetime ≠ 0 := by decide
  have hf : session.found Instant.last cache = .ok (.create "u" []) :=
    found_of_keeping hp ⟨rfl, rfl⟩
  have hv : (outcome remove session .none Instant.last [] cache).value.1 = .ok () :=
    value_remove_of_found rfl hf Store.listable_keeping
  have hs : session.subject? Instant.last cache = some (.create "u" []) := by
    rw [subject?, hf]
    rfl
  have hi : cache.listed Instant.last (Key.index "u") = ["s", "t", "r"] := Store.listed_keeping
  refine ⟨hp, hz, hs, hv, ?_⟩
  obtain ⟨other, before, ho, hm, _, hl⟩ := removed_of_ok hp hz hv
  cases hs.symm.trans ho
  have he : (outcome remove session .none Instant.last [] cache).store.listed Instant.last
      (Key.index "u") = [] := by
    refine hm.listed.trans ?_
    rw [hl ⟨rfl, rfl, rfl⟩, List.filter_nil]
  rw [he, hi]
  decide

end Session
end Entitlement
