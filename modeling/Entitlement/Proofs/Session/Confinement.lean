import Entitlement.Proofs.Grant.Compaction
import Entitlement.Proofs.Session.Record
import Entitlement.Proofs.Session.Run
import Entitlement.Proofs.Store.Guard
/-!
The active list of a record permits nothing that its full list does not. Records are made so, and
every operation keeps them so, in memory as well as in the cache.
-/

namespace Entitlement

variable {token : String} {record : Record} {value : Held} {active full grants : List Grant}

-- Both lists of a record can be decoded, and the active one permits nothing more than the full one.
def Record.Within (record : Record) : Prop :=
  ∃ active full, Blob.decode record.user.perms = .ok active ∧ Blob.decode record.full = .ok full ∧
    ∀ request, permitted active request → permitted full request

-- Its full list stands apart, so that it does not change with the active one.
structure Record.Confined (record : Record) : Prop where
  bare : record.Bare
  apart : record.full? = some record.full
  within : record.Within

-- What was decoded of a record that is held is still what its texts decode to.
structure Held.Confined (held : Held) : Prop where
  record : held.record.Confined
  active : ∀ grants, held.active? = some grants → Blob.decode held.record.user.perms = .ok grants
  full : ∀ grants, held.full? = some grants → Blob.decode held.record.full = .ok grants

-- The bytes of a confined record.
def Confines (data : ByteArray) : Prop :=
  ∃ record : Record, record.Confined ∧ data = record.encode

theorem Record.within_create (token user : String) (grants : List Grant) :
    Record.Within { create user grants with uid := token } :=
  ⟨compacted grants, compacted grants, Blob.decode_encode _, Blob.decode_encode _, fun _ h => h⟩

theorem Confines.decode (h : Confines data) : ∃ record, Record.decode? data = some record ∧
    record.Confined := by
  have ⟨record, hr, hd⟩ := h
  exact ⟨record, hd ▸ hr.bare.decode?_encode, hr⟩

namespace Held

theorem confined_of (hb : record.Bare) (hw : record.Within) (modified : Bool) :
    (Held.of record modified).Confined where
  record := ⟨⟨hb.user, hb.extra⟩, rfl, hw⟩
  active := nofun
  full := nofun

theorem confined_create (token user : String) (grants : List Grant) (modified : Bool) :
    Held.Confined (.of { Record.create user grants with uid := token } modified) :=
  confined_of ⟨rfl, rfl⟩ (Record.within_create token user grants) modified

-- The full list stays the same, whatever becomes the active one.
theorem full_withActive (h : value.Confined) (blob : String) (grants : List Grant) :
    (Session.withActive value blob grants).record.full = value.record.full := by
  change value.record.full?.getD blob = value.record.full
  rw [h.record.apart]
  rfl

theorem confined_withActive (h : value.Confined) (hd : Blob.decode blob = .ok active)
    (hf : Blob.decode value.record.full = .ok full)
    (hw : ∀ request, permitted active request → permitted full request) :
    (Session.withActive value blob active).Confined := by
  have hs := full_withActive h blob active
  constructor
  case record =>
    refine ⟨⟨h.record.bare.user, h.record.bare.extra⟩, ?_, active, full, hd, hs ▸ hf, hw⟩
    exact hs ▸ h.record.apart
  case active =>
    rintro _ ⟨⟩
    exact hd
  case full => exact hs ▸ h.full

theorem confined_restrict (h : value.Confined) (hf : value.full? = some full)
    (hg : ∀ grant ∈ grants, permitted full grant.asRequest) :
    (Session.withActive value (Blob.encode (compacted grants)) (compacted grants)).Confined := by
  apply confined_withActive h (Blob.decode_encode _) (h.full full hf)
  intro request hp
  have ⟨grant, hm, hr⟩ := permitted_iff.mp hp
  exact permitted_of_permits (hg grant (mem_of_mem_compacted hm)) hr

theorem confined_restore (h : value.Confined) (hf : value.full? = some full) :
    (Session.withActive value value.record.full full).Confined :=
  confined_withActive h (h.full full hf) (h.full full hf) fun _ hp => hp

end Held

theorem upkeep_confined (token : String) :
    Upkeep (.guarding (Key.record token) Confines) token Held.Confined := by
  constructor
  case sends => exact fun command hc ttl data he => absurd he (hc ttl data)
  case writes =>
    rintro value h ttl _ _ ⟨⟩
    exact ⟨value.record, h.record, rfl⟩
  case loads =>
    intro bytes record hr hd
    have ⟨found, hf, hc⟩ := Confines.decode (hr rfl)
    have he : found = record := Option.some.inj (hf.symm.trans hd)
    exact he ▸ Held.confined_of hc.bare hc.within false
  case decodesActive =>
    intro value grants h hd
    refine ⟨h.record, ?_, h.full⟩
    rintro _ ⟨⟩
    exact hd
  case decodesFull =>
    intro value grants h hd
    refine ⟨h.record, h.active, ?_⟩
    rintro _ ⟨⟩
    exact hd
  case restricts => exact fun h hf hg => Held.confined_restrict h hf hg
  case restores => exact fun h hf => Held.confined_restore h hf
  case saves => exact fun h => ⟨h.record, h.active, h.full⟩

namespace Session

variable {session : Session}

-- Once a record is in memory, nothing can keep its full list back.
theorem perform_fullGrants (hs : session.state = .held value) (hc : value.Confined)
    (hf : Blob.decode value.record.full = .ok full) :
    ∃ after, perform fullGrants session = pure (.ok full, after) := by
  rw [fullGrants, perform_bind, perform_held hs, pure_bind]
  dsimp only
  split
  case h_1 grants hg =>
    cases Except.ok.inj ((hc.full grants hg).symm.trans hf)
    exact ⟨_, rfl⟩
  case h_2 =>
    rw [decoded, hf]
    exact ⟨_, rfl⟩

-- What is active, a session says that it can do.
theorem can_of_active (hs : session.state = .held value) (hc : value.Confined)
    (ha : value.active? = some active)
    (hp : permitted active (.of action objectType path definition)) (refuse : Script.Refusal)
    (now : Instant) (sent : List Command) (cache : Store) :
    (outcome (can action objectType path definition) session refuse now sent cache).value.1 =
      .ok true := by
  have ⟨active', full, hd, hf, hw⟩ := hc.record.within
  have he : active' = active := Except.ok.inj (hd.symm.trans (hc.active active ha))
  have ⟨after, hg⟩ := perform_fullGrants hs hc hf
  rw [outcome, can, perform_bind, hg]
  exact congrArg Except.ok (hw _ (he ▸ hp))

end Session

-- Nothing is active that is not allowed: not in a record in memory, not in the one that lies in the
-- cache, and not in the answers of a session.
structure World.Contained (token : String) (world : World) : Prop where
  held : ∀ session ∈ world.sessions, ∀ held, session.state = .held held → held.record.Within
  stored : world.cache.Guards (Key.record token) fun data =>
    ∃ record, Record.decode? data = some record ∧ record.Within
  answered : ∀ session ∈ world.sessions, ∀ action objectType path definition refuse now sent,
    let asked := Session.outcome (Session.isActive action objectType path definition) session
      refuse now sent world.cache
    asked.value.1 = .ok true → ∀ refuse now sent cache,
      (Session.outcome (Session.can action objectType path definition) asked.value.2
        refuse now sent cache).value.1 = .ok true

theorem Session.answered_of_sane {cache : Store} (hs : session.Sane token Held.Confined)
    (hc : cache.Guards (Key.record token) Confines) (action objectType path definition : String)
    (refuse : Script.Refusal) (now : Instant) (sent : List Command) :
    let asked := outcome (isActive action objectType path definition) session refuse now sent cache
    asked.value.1 = .ok true → ∀ refuse now sent cache,
      (outcome (can action objectType path definition) asked.value.2 refuse now sent cache).value.1 =
        .ok true := by
  intro asked ha
  have hk : Keeps (.guarding (Key.record token) Confines) token Held.Confined (fun _ => True)
      (isActive action objectType path definition) _ :=
    (upkeep_confined token).isActive action objectType path definition
  have ⟨hs, _, hp⟩ := hk.outcome Contract.guarding_upheld hs trivial refuse now sent cache hc
  have ⟨value, hv, active, hl, hr⟩ := hp true ha
  exact can_of_active hv (hs.held value hv) hl hr.symm

theorem World.Sane.contained {world : World}
    (h : world.Sane token Held.Confined (Store.Guards (Key.record token) Confines)) :
    world.Contained token where
  held session hm value hv := ((h.sessions session hm).held value hv).record.within
  stored slot data hf hd := by
    have ⟨record, hr, hc⟩ := (h.cache slot data hf hd).decode
    exact ⟨record, hr, hc.within⟩
  answered session hm := Session.answered_of_sane (h.sessions session hm) h.cache

-- However the sessions of a token go on after a record was put under it, they stay within what its
-- grants allow.
theorem contained_of_deposited (cache : Store) (now : Instant) (events : List Event)
    (hd : Session.Deposited token (.create user grants) config refuse)
    (he : ∀ event ∈ events, event.move.Checked) :
    (((World.mk cache []).step token ⟨.establish user grants config, refuse, now⟩).run
      token events).Contained token := by
  have u : Upkeep (.guarding (Key.record token) Confines) token Held.Confined :=
    upkeep_confined token
  have hr (user : String) (grants : List Grant) :
      Held.Confined (.of { Record.create user grants with uid := token } true) :=
    Held.confined_create token user grants true
  have hw : Confines (Held.of { Record.create user grants with uid := token } true).record.encode :=
    ⟨_, (hr user grants).record, rfl⟩
  have hs : ((World.mk cache []).step token ⟨.establish user grants config, refuse, now⟩).Sane
      token Held.Confined (Store.Guards (Key.record token) Confines) :=
    .of_deposited u Contract.guarding_upheld (hr user grants) hd ⟨trivial, .of_setex hw⟩
  exact (hs.run u Contract.guarding_upheld hr he).contained

-- Two sessions of one token: the second one loads the narrower list that the first one wrote.
theorem contained_after_narrowing :
    let grants : List Grant := [⟨1, 1, "ssh", "Node", "a//*", 1, "*"⟩]
    let narrowed : List Grant := [⟨2, 1, "ssh", "Node", "a//B", 1, "view"⟩]
    let config : Config := { connected := true }
    let events : List Event := [
      ⟨.operate 0 (.restrict narrowed true), .none, 1000⟩, ⟨.create config, .none, 2000⟩,
      ⟨.operate 1 (.isActive "view" "ssh" "a//b" "Node"), .none, 3000⟩]
    let begun := (World.mk .empty []).step "t" ⟨.establish "u" grants config, .none, 0⟩
    let world := begun.run "t" events
    world.Contained "t" ∧ world.sessions.length = 2 := by
  intro grants narrowed config events begun world
  refine ⟨contained_of_deposited .empty 0 events ⟨rfl, rfl⟩ fun event he => ?_, by decide +kernel⟩
  simp [events] at he
  obtain rfl | rfl | rfl := he
  all_goals rintro _ _ ⟨⟩ _ ⟨⟩

end Entitlement
