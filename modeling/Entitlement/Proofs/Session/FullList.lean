import Entitlement.Proofs.Session.Record
import Entitlement.Proofs.Session.Run
import Entitlement.Proofs.Store.Guard
/-!
The full list of an identity stays what it was when its record was put into the cache. A record
without a full list of its own gets one as soon as it is in memory, so that no list that becomes
active later can take its place.
-/

namespace Entitlement

variable {token blob : String} {record : Record} {value : Held} {session : Session} {cache : Store}

-- Its full list is this text, and what was decoded of the full list is what the text decodes to.
structure Held.Bears (blob : String) (held : Held) : Prop where
  apart : held.record.full? = some blob
  decoded : ∀ grants, held.full? = some grants → Blob.decode blob = .ok grants

-- If the bytes are a record at all, its full list is this text.
def Bears (blob : String) (data : ByteArray) : Prop :=
  ∀ record, Record.decode? data = some record → record.full = blob

theorem Record.full_of_apart (h : record.full? = some blob) : record.full = blob := by
  rw [full, h]
  rfl

theorem bears_encode (h : record.full? = some blob) : Bears blob record.encode :=
  fun _ hd => Record.full_of_apart ((Record.alike_of_decode?_encode hd).full? blob h)

namespace Held

theorem bears_of (h : record.full = blob) (modified : Bool) : (of record modified).Bears blob where
  apart := congrArg some h
  decoded := nofun

-- The full list does not depend on the active one any more.
theorem Bears.withActive (h : value.Bears blob) (text : String) (grants : List Grant) :
    (Session.withActive value text grants).Bears blob :=
  ⟨h.apart, h.decoded⟩

end Held

theorem upkeep_bears (token blob : String) :
    Upkeep (.guarding (Key.record token) (Bears blob)) token (Held.Bears blob) := by
  constructor
  case sends => exact fun command hc ttl data he => absurd he (hc ttl data)
  case writes =>
    rintro value h ttl _ _ ⟨⟩
    exact bears_encode h.apart
  case loads => exact fun hr hd => Held.bears_of (hr rfl _ hd) false
  case decodesActive => exact fun h _ => ⟨h.apart, h.decoded⟩
  case decodesFull =>
    intro value grants h hd
    refine ⟨h.apart, ?_⟩
    rintro _ ⟨⟩
    exact Record.full_of_apart h.apart ▸ hd
  case restricts => exact fun h _ _ => h.withActive _ _
  case restores => exact fun h _ => h.withActive _ _
  case saves => exact fun h => ⟨h.apart, h.decoded⟩

theorem keeps_activate_bears (token blob : String) (grants : List Grant) :
    Keeps (.guarding (Key.record token) (Bears blob)) token (Held.Bears blob) (fun _ => True)
      (Session.activate grants) fun _ _ => True :=
  .bind (upkeep_bears token blob).held fun _ =>
    (Keeps.exchange fun hi _ => hi.withActive _ _).mono (fun _ hv => ⟨hv, trivial⟩)
      fun _ _ _ => trivial

namespace Session

-- With a record at hand nothing else decides what the full list is.
theorem perform_fullGrants_of_bears (hs : session.state = .held value) (hb : value.Bears blob) :
    ∃ after, perform fullGrants session = pure (granted blob, after) := by
  rw [fullGrants, perform_bind, perform_held hs, pure_bind]
  dsimp only
  split
  case h_1 grants hf =>
    simp only [granted, hb.decoded grants hf]
    exact ⟨_, rfl⟩
  case h_2 =>
    rw [perform_bind, Record.full_of_apart hb.apart, perform_decoded, pure_bind]
    cases granted blob
    all_goals exact ⟨_, rfl⟩

variable (refuse : Script.Refusal) (now : Instant) (sent : List Command)

-- A session without a record takes it from the cache first, and only that can go wrong.
theorem outcome_fullGrants (hs : session.Sane token (Held.Bears blob))
    (hc : cache.Guards (Key.record token) (Bears blob)) :
    (outcome fullGrants session refuse now sent cache).value.1 =
      (outcome held session refuse now sent cache).value.1.bind fun _ => granted blob := by
  have hk : Keeps _ token (Held.Bears blob) (fun _ => True) held _ := (upkeep_bears token blob).held
  have ⟨hl, _, hp⟩ := hk.outcome Contract.guarding_upheld hs trivial refuse now sent cache hc
  rw [fullGrants, outcome_bind]
  generalize outcome held session refuse now sent cache = first at hl hp
  cases ha : first.value.1
  case error error => simp only [ha]; rfl
  case ok value =>
    have hv : first.value.2.state = .held value := hp value ha
    have ⟨after, he⟩ := perform_fullGrants_of_bears hv (hl.held value hv)
    rw [fullGrants, perform_bind, perform_held hv, pure_bind] at he
    dsimp only at he
    simp only [ha, outcome]
    rw [he]
    rfl

theorem outcome_can (action objectType path definition : String) :
    (outcome (can action objectType path definition) session refuse now sent cache).value.1 =
      (outcome fullGrants session refuse now sent cache).value.1.map fun grants =>
        permitted grants (.of action objectType path definition) := by
  rw [can, outcome_bind]
  cases ha : (outcome fullGrants session refuse now sent cache).value.1
  all_goals
    simp only [ha]
    rfl

-- The list that was made active again is at hand, and it is the full one.
theorem activeGrants_of_restored (hs : session.Sane token (Held.Bears blob))
    (hc : cache.Guards (Key.record token) (Bears blob))
    (hr : (outcome restore session refuse now sent cache).value = (.ok (), after)) :
    ∃ grants, Blob.decode blob = .ok grants ∧
      perform activeGrants after = pure (.ok grants, after) := by
  have hk : Keeps _ token (Held.Bears blob) (fun _ => True) restore _ :=
    (upkeep_bears token blob).restore
  have ⟨hl, _, hp⟩ := hk.outcome Contract.guarding_upheld hs trivial refuse now sent cache hc
  rw [hr] at hl hp
  have ⟨value, hv, grants, hf, ha⟩ := hp () rfl
  exact ⟨grants, (hl.held value hv).decoded grants hf, perform_activeGrants hv ha⟩

end Session

namespace World

-- The full list is one text wherever a record is, and what is said about the full list is what the
-- text says, unless there is no record to ask.
structure Fixed (token blob : String) (world : World) : Prop where
  held : ∀ session ∈ world.sessions, ∀ held, session.state = .held held → held.record.full = blob
  stored : world.cache.Guards (Key.record token) fun data =>
    ∀ record, Record.decode? data = some record → record.full = blob
  shown : ∀ refresh refuse now sent entry,
    ((Directory.lookup token refresh).run refuse now sent world.cache).value = .ok entry →
      entry.record.full = blob
  listed : ∀ session ∈ world.sessions, ∀ refuse now sent,
    (Session.outcome Session.fullGrants session refuse now sent world.cache).value.1 =
      (Session.outcome Session.held session refuse now sent world.cache).value.1.bind fun _ =>
        Session.granted blob
  allowed : ∀ session ∈ world.sessions, ∀ action objectType path definition refuse now sent,
    (Session.outcome (Session.can action objectType path definition) session refuse now sent
      world.cache).value.1 =
      (Session.outcome Session.held session refuse now sent world.cache).value.1.bind fun _ =>
        (Session.granted blob).map fun grants =>
          permitted grants (.of action objectType path definition)
  restored : ∀ session ∈ world.sessions, ∀ refuse now sent after,
    (Session.outcome Session.restore session refuse now sent world.cache).value = (.ok (), after) →
      ∃ grants, Blob.decode blob = .ok grants ∧ ∀ refuse now sent cache,
        (Session.outcome Session.activeGrants after refuse now sent cache).value.1 = .ok grants

variable {world : World}

theorem Sane.fixed (h : world.Sane token (Held.Bears blob) (Store.Guards (Key.record token)
    (Bears blob))) : world.Fixed token blob where
  held session hm value hv := Record.full_of_apart ((h.sessions session hm).held value hv).apart
  stored := h.cache
  shown refresh refuse now sent entry he := by
    have hl := (upkeep_bears token blob).lookup refresh
    have ⟨value, hb, hr⟩ :=
      (hl.run Contract.guarding_upheld h.cache refuse now sent).1 entry he
    exact hr ▸ Record.full_of_apart hb.apart
  listed session hm refuse now sent :=
    Session.outcome_fullGrants refuse now sent (h.sessions session hm) h.cache
  allowed session hm action objectType path definition refuse now sent := by
    rw [Session.outcome_can, Session.outcome_fullGrants refuse now sent (h.sessions session hm)
      h.cache]
    cases (Session.outcome Session.held session refuse now sent world.cache).value.1 <;> rfl
  restored session hm refuse now sent after hr := by
    have ⟨grants, hd, ha⟩ := Session.activeGrants_of_restored refuse now sent
      (h.sessions session hm) h.cache hr
    refine ⟨grants, hd, fun refuse now sent cache => ?_⟩
    rw [Session.outcome, ha]
    rfl

theorem Sane.turn {turn : Turn} (ht : turn.Spares token)
    (h : world.Sane token (Held.Bears blob) (Store.Guards (Key.record token) (Bears blob))) :
    (world.turn token turn).Sane token (Held.Bears blob)
      (Store.Guards (Key.record token) (Bears blob)) := by
  cases turn
  case event event =>
    have hk : event.move.Kept (.guarding (Key.record token) (Bears blob)) token (Held.Bears blob) :=
      ⟨fun user grants config he => absurd he (ht user grants config),
        fun _ grants _ => keeps_activate_bears token blob grants⟩
    exact h.step (upkeep_bears token blob) Contract.guarding_upheld hk
  case command command now =>
    have hs : (Contract.guarding (Key.record token) (Bears blob)).sends command :=
      fun ttl data he => absurd he (ht ttl data)
    exact ⟨(Contract.guarding_upheld.served h.cache hs).2, h.sessions⟩

theorem Sane.turns {turns : List Turn} (ht : ∀ turn ∈ turns, turn.Spares token)
    (h : world.Sane token (Held.Bears blob) (Store.Guards (Key.record token) (Bears blob))) :
    (world.turns token turns).Sane token (Held.Bears blob)
      (Store.Guards (Key.record token) (Bears blob)) := by
  induction turns generalizing world
  case nil => exact h
  case cons turn turns hi =>
    exact hi (fun other ho => ht other (.tail _ ho)) (h.turn (ht turn List.mem_cons_self))

-- Whatever sessions do with an identity that lies in the cache, its full list stays as it is.
theorem fixed_of_stored {slot : Store.Slot} (hf : cache.find? (Key.record token) = some slot)
    (hv : slot.value = .bytes data) (hd : Record.decode? data = some record) (turns : List Turn)
    (ht : ∀ turn ∈ turns, turn.Spares token) :
    ((World.mk cache []).turns token turns).Fixed token record.full := by
  have hc : cache.Guards (Key.record token) (Bears record.full) := by
    intro found bytes hs hb
    cases hs.symm.trans hf
    cases hv.symm.trans hb
    intro other ho
    exact congrArg Record.full (Option.some.inj (ho.symm.trans hd))
  have hs : (World.mk cache []).Sane token (Held.Bears record.full)
      (Store.Guards (Key.record token) (Bears record.full)) :=
    ⟨hc, fun _ hm => nomatch hm⟩
  exact (hs.turns ht).fixed

-- A record without a full list of its own, a session that gives it away as a list it never had, and
-- one that is begun after that.
theorem fixed_after_activation :
    let record := Record.create "u" [⟨1, 1, "ssh", "Node", "a//b", 1, "view"⟩]
    let slot : Store.Slot := ⟨.bytes record.encode, none⟩
    let config : Config := { connected := true }
    let turns : List Turn := [
      .event ⟨.create config, .none, 1000⟩,
      .event ⟨.operate 0 (.activate [⟨2, 1, "ssh", "Node", "*//*", 1, "*"⟩]), .none, 2000⟩,
      .event ⟨.operate 0 (.save false), .none, 3000⟩, .command (.lpush "queue" "job") 4000,
      .event ⟨.create config, .none, 5000⟩, .event ⟨.operate 1 .restore, .none, 6000⟩]
    let world := (World.mk (.ofList [(Key.record "t", slot)]) []).turns "t" turns
    world.Fixed "t" record.full ∧ world.sessions.length = 2 := by
  intro record slot config turns world
  have hf : (Store.ofList [(Key.record "t", slot)]).find? (Key.record "t") = some slot :=
    Fields.find?_insert_self [] _ slot
  have hd : Record.decode? record.encode = some record := Record.Bare.decode?_encode ⟨rfl, rfl⟩
  have ht : ∀ turn ∈ turns, turn.Spares "t" := by
    intro turn ht
    simp [turns] at ht
    obtain rfl | rfl | rfl | rfl | rfl | rfl := ht
    all_goals simp [Turn.Spares]
  have hl : world.sessions.length = 2 := by decide +kernel
  have hw : world.Fixed "t" record.full := fixed_of_stored hf rfl hd turns ht
  exact ⟨hw, hl⟩

end World
end Entitlement
