import Entitlement.Proofs.Session.Loading
import Entitlement.Proofs.Store.Deadline
import Entitlement.Proofs.Text.Bytes
/-!
The list of all identities against the look at a single one. Both read what lies under the key of
a token, and neither changes the cache; so the list is made of just those identities that can be
looked at, each once and in the order of the tokens.
-/

namespace Entitlement.Directory

variable {cache : Store} {now : Instant} {key token : String} {entry shown : Entry}

-- What can be read under a key, with the time that is left of it.
def readable? (cache : Store) (now : Instant) (key : String) : Option Entry :=
  match cache.live? now key with
  | some ⟨.bytes data, _⟩ => (Record.decode? data).map (⟨·, cache.ttl now key⟩)
  | _ => none

theorem readable?_eq_some : readable? cache now key = some entry ↔
    entry.remaining = cache.ttl now key ∧ ∃ data deadline?,
      cache.live? now key = some ⟨.bytes data, deadline?⟩ ∧
        Record.decode? data = some entry.record := by
  obtain ⟨record, remaining⟩ := entry
  rw [readable?]
  match hl : cache.live? now key with
  | none | some ⟨.list _, _⟩ => simp
  | some ⟨.bytes data, _⟩ => simp [and_comm, eq_comm]

theorem found?_get (cache : Store) (now : Instant) (key : String) :
    Exchange.found? ⟨.get key, cache.get now key⟩ = (readable? cache now key).map Entry.record := by
  rw [readable?, Store.get]
  obtain _ | ⟨data | items, _⟩ := cache.live? now key
  case none | some.list => rfl
  case some.bytes => simp [Exchange.found?, Function.comp_def]

-- Keys are read one after another, and those under which nothing is readable are passed over.
theorem run_entries (cache : Store) (now : Instant) (keys : List String) (sent : List Command) :
    ∃ last, (entries keys).run.run .none now sent cache =
      ⟨.ok (keys.filterMap (readable? cache now)), cache, last⟩ := by
  induction keys generalizing sent
  case nil => exact ⟨sent, rfl⟩
  case cons key keys hi =>
    rw [entries_cons, Script.run]
    simp only [Script.Refusal.none, Store.reply, found?_get, List.filterMap_cons]
    cases hr : readable? cache now key
    case none => exact hi _
    case some entry =>
      obtain ⟨last, hl⟩ := hi (sent ++ [.get key] ++ [.ttl key])
      refine ⟨last, ?_⟩
      change Script.run .none now ((entries keys).run >>= _) _ cache = _
      rw [Script.run_bind, hl, ← (readable?_eq_some.mp hr).1]
      rfl

-- The tokens of the identities in the list, each with what the list says of it.
def listed (cache : Store) (now : Instant) : List (String × Entry) :=
  ((cache.keys now Key.start).filter (!Key.isIndex ·)).filterMap fun key =>
    (readable? cache now key).map (Key.token key, ·)

theorem run_all (cache : Store) (now : Instant) : ∃ last,
    all.run.run .none now [] cache = ⟨.ok ((listed cache now).map Prod.snd), cache, last⟩ := by
  have ⟨last, hl⟩ := run_entries cache now
    ((cache.keys now Key.start).filter (!Key.isIndex ·)) [.keys Key.start]
  refine ⟨last, ?_⟩
  rw [listed, List.map_filterMap]
  simp only [Option.map_map, Function.comp_def, Option.map_id']
  exact hl

theorem mem_keys : key ∈ cache.keys now Key.start ↔
    (∃ token, key = Key.record token) ∧ (cache.live? now key).isSome := by
  rw [← Key.isPrefixOf_start, ← Store.mem_keys_all, Store.keys_all, Store.keys, List.mem_filter,
    and_comm]

theorem mem_listed : (token, entry) ∈ listed cache now ↔
    Key.Plain token ∧ readable? cache now (Key.record token) = some entry := by
  simp only [listed, List.mem_filterMap, List.mem_filter, mem_keys, Option.map_eq_some_iff,
    Prod.mk.injEq]
  constructor
  case mp =>
    rintro ⟨_, ⟨⟨⟨token, rfl⟩, _⟩, hi⟩, _, hr, ht, rfl⟩
    rw [Key.token_record] at ht
    subst ht
    simp only [Bool.not_eq_true', Bool.eq_false_iff, ne_eq, Key.isIndex_record, not_not] at hi
    exact ⟨hi, hr⟩
  case mpr =>
    intro ⟨hp, hr⟩
    have ⟨_, data, deadline?, hl, _⟩ := readable?_eq_some.mp hr
    refine ⟨Key.record token, ⟨⟨⟨token, rfl⟩, by rw [hl, Option.isSome_some]⟩, ?_⟩, entry, hr,
      Key.token_record token, rfl⟩
    simpa [Bool.eq_false_iff, Key.isIndex_record] using hp

theorem listed_ascending : (listed cache now).Pairwise fun a b => a.1 < b.1 := by
  have hk : (cache.keys now Key.start).Pairwise (· < ·) :=
    (List.pairwise_map.mpr (cache.live_ascending now)).filter _
  refine List.pairwise_filterMap.mpr ((hk.filter _).imp_of_mem ?_)
  intro key other hm ho hlt a ha b hb
  obtain ⟨_, _, rfl⟩ := Option.map_eq_some_iff.mp ha
  obtain ⟨_, _, rfl⟩ := Option.map_eq_some_iff.mp hb
  obtain ⟨t, rfl⟩ := (mem_keys.mp (List.mem_of_mem_filter hm)).1
  obtain ⟨s, rfl⟩ := (mem_keys.mp (List.mem_of_mem_filter ho)).1
  rw [Key.token_record, Key.token_record]
  exact Key.record_lt.mp hlt

-- An identity as a session has it: with a full list of its own.
def Entry.complete (entry : Entry) : Entry :=
  { entry with record := { entry.record with full? := some entry.record.full } }

-- To look at an identity is to read it and to ask for the time that is left.
theorem run_lookup (cache : Store) (now : Instant) (token : String) : ∃ last,
    (lookup token false).run .none now [] cache =
      ⟨((Session.visitor token false).found now cache).map fun record =>
        Entry.complete ⟨record, cache.ttl now (Key.record token)⟩, cache, last⟩ := by
  have hs : (Session.visitor token false).state ≠ .removed := nofun
  rw [Session.run_lookup, lookup.entry, Session.outcome_bind, Session.outcome_load hs]
  cases (Session.visitor token false).found now cache
  case error => exact ⟨_, rfl⟩
  case ok record => exact ⟨_, rfl⟩

theorem value_lookup : ((lookup token false).run .none now [] cache).value = .ok shown ↔
    ∃ entry, readable? cache now (Key.record token) = some entry ∧ shown = entry.complete := by
  have ⟨_, hl⟩ := run_lookup cache now token
  have hf (record : Record) : (Session.visitor token false).found now cache = .ok record ↔
      (readable? cache now (Key.record token)).map Entry.record = some record := by
    rw [← found?_get, Session.found_eq]
    exact Session.told_eq_ok
  rw [hl]
  cases hr : readable? cache now (Key.record token)
  case none =>
    simp only [hr, Option.map_none, reduceCtorEq, iff_false] at hf
    cases hv : (Session.visitor token false).found now cache
    case error => simp [Except.map]
    case ok record => exact absurd hv (hf record)
  case some entry =>
    rw [(hf entry.record).mpr (by rw [hr, Option.map_some])]
    rw [← (readable?_eq_some.mp hr).1]
    simp [Except.map, eq_comm]

-- The list of all identities is there at any time, and has each identity once, by its token, that
-- can be looked at by itself and is not spelled like an index: with the same record, but for a full
-- list of its own, and the same time that is left. What is no readable record is passed over.
theorem listed_as_looked_up (cache : Store) (now : Instant) :
    let listing := all.run.run .none now [] cache
    let look (token : String) := (lookup token false).run .none now [] cache
    ∃ listed : List (String × Entry),
      listing.value = .ok (listed.map Prod.snd) ∧
      listed.Pairwise (fun a b => Text.bytes a.1 < Text.bytes b.1) ∧
      (∀ token, token ∈ listed.map Prod.fst ↔
        Key.Plain token ∧ ∃ shown, (look token).value = .ok shown) ∧
      (∀ token entry, (token, entry) ∈ listed → (look token).value = .ok entry.complete ∧
        entry.complete.remaining = entry.remaining ∧
          entry.complete.record.full = entry.record.full) ∧
      (∀ token entry, (token, entry) ∈ listed ↔ Key.Plain token ∧
        entry.remaining = cache.ttl now (Key.record token) ∧ ∃ data deadline?,
          cache.live? now (Key.record token) = some ⟨.bytes data, deadline?⟩ ∧
            Record.decode? data = some entry.record) ∧
      listing.store = cache ∧ ∀ token, (look token).store = cache := by
  intro listing look
  have ⟨_, hl⟩ := run_all cache now
  refine ⟨listed cache now, ?value, ?order, ?tokens, ?entries, ?content, ?list, ?look⟩
  case value => exact congrArg Script.Outcome.value hl
  case order => exact listed_ascending.imp Text.bytes_lt
  case tokens =>
    intro token
    simp only [List.mem_map, Prod.exists, exists_and_right, exists_eq_right, mem_listed, look,
      value_lookup]
    refine ⟨fun ⟨entry, hp, hr⟩ => ⟨hp, _, entry, hr, rfl⟩, ?_⟩
    rintro ⟨hp, _, entry, hr, rfl⟩
    exact ⟨entry, hp, hr⟩
  case entries =>
    intro token entry hm
    exact ⟨value_lookup.mpr ⟨entry, (mem_listed.mp hm).2, rfl⟩, rfl, rfl⟩
  case content => exact fun token entry => by rw [mem_listed, readable?_eq_some]
  case list => exact congrArg Script.Outcome.store hl
  case look =>
    intro token
    have ⟨_, hv⟩ := run_lookup cache now token
    exact congrArg Script.Outcome.store hv

end Entitlement.Directory
