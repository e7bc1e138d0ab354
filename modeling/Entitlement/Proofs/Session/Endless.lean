import Entitlement.Proofs.Session.Enlist
import Entitlement.Proofs.Session.Ownership
/-!
Records that will never expire: how they come to be, what leaves them so, and which operations take
the lifetime of a record away.
-/

namespace Entitlement

variable {token user key : String} {now : Instant}

def Instant.last : Instant := -1

theorem Store.lt_deadline (hn : now < Instant.last) (hs : seconds ≠ 0) :
    now < deadline now seconds := by
  have hl : now.toNat < UInt64.size - 1 := UInt64.lt_iff_toNat_lt.mp hn
  have hz : seconds.toNat ≠ 0 := fun h => hs (UInt64.toNat_inj.mp h)
  rw [UInt64.lt_iff_toNat_lt, toNat_deadline]
  omega

theorem Instant.lt_last_of_lt {seconds : UInt64}
    (h : now.toNat + 1000 * seconds.toNat < UInt64.size) (hs : seconds ≠ 0) :
    now < Instant.last := by
  have hz : seconds.toNat ≠ 0 := fun h => hs (UInt64.toNat_inj.mp h)
  refine UInt64.lt_iff_toNat_lt.mpr ?_
  change now.toNat < UInt64.size - 1
  omega

-- There are bytes that will never expire.
def Store.Endless (key : String) (store : Store) : Prop :=
  ∃ data, store.find? key = some ⟨.bytes data, none⟩

-- What such commands do to the lifetime of their key may be its end.
def Command.Limits : Command → Prop
  | setex .. | expire .. | delete _ => True
  | _ => False

theorem Command.effect_endless {command : Command} (h : ¬command.Limits) (data : ByteArray) :
    command.effect now (some ⟨.bytes data, none⟩) = some ⟨.bytes data, none⟩ := by
  cases command
  case setex | expire | delete => exact absurd trivial h
  all_goals rfl

namespace Store

variable {store : Store}

theorem Endless.live? (h : store.Endless key) (now : Instant) :
    ∃ data, store.live? now key = some ⟨.bytes data, none⟩ := by
  have ⟨data, hd⟩ := h
  exact ⟨data, live?_eq_some.mpr ⟨hd, rfl⟩⟩

theorem endless_of_live? (h : store.live? now key = some ⟨.bytes data, none⟩) :
    store.Endless key :=
  ⟨data, (live?_eq_some.mp h).1⟩

theorem Endless.ttl (h : store.Endless key) (now : Instant) : store.ttl now key = .permanent := by
  have ⟨data, hd⟩ := h.live? now
  rw [Store.ttl, hd]

theorem Endless.get (h : store.Endless key) (now : Instant) :
    ∃ data, store.get now key = .ok (some data) := by
  have ⟨data, hd⟩ := h.live? now
  exact ⟨data, by rw [Store.get, hd]⟩

theorem Endless.reply {command : Command} (h : store.Endless key)
    (hc : command.Limits → command.key ≠ key) : (store.reply now command).2.Endless key := by
  by_cases hk : key = command.key
  case neg =>
    have ⟨data, hd⟩ := h
    exact ⟨data, ((store.becomes_reply now command).others key hk).trans hd⟩
  case pos =>
    subst hk
    have ⟨data, hd⟩ := h.live? now
    have hl : ¬command.Limits := fun hl => hc hl rfl
    have ho := (store.becomes_reply now command).own
    rw [hd, Command.effect_endless hl data] at ho
    exact endless_of_live? ho

end Store

namespace Session

variable {session : Session} {held : Held} {record : Record} {cache : Store} {sent : List Command}

-- The record that was written, with its deadline or without an end.
theorem find?_writing (hn : now < Instant.last) (hl : session.lifetime ≠ 0)
    (hk : Key.index record.user.id ≠ Key.record session.token) (never : Bool) :
    (cache.serve now (writing session record never)).find? (Key.record session.token) =
      some ⟨.bytes record.encode,
        if never then none else some (Store.deadline now session.lifetime)⟩ := by
  have hd : ¬Store.deadline now session.lifetime ≤ now :=
    UInt64.not_le.mpr (Store.lt_deadline hn hl)
  let slot : Store.Slot :=
    ⟨.bytes record.encode, if never then none else some (Store.deadline now session.lifetime)⟩
  have hw : (cache.serve now (writing session record never)).live? now
      (Key.record session.token) = some slot := by
    rw [live?_record_writing hk]
    cases never <;> simp [slot, Option.filter, Store.Slot.isExpired, hd]
  exact (Store.live?_eq_some.mp hw).1

-- Without an end the index of its user stays for good, too.
theorem find?_index_writing (hz : session.lifetime ≠ 0)
    (hk : Key.index record.user.id ≠ Key.record session.token)
    (hl : cache.Listable now (Key.index record.user.id)) : ∃ items,
      (cache.serve now (writing session record true)).find? (Key.index record.user.id) =
        some ⟨.list items, none⟩ :=
  ⟨_, (Store.live?_eq_some.mp (live?_index_writing hz hk hl true)).1⟩

theorem endless_writing (hn : now < Instant.last) (hl : session.lifetime ≠ 0)
    (hk : Key.index record.user.id ≠ Key.record session.token) :
    (cache.serve now (writing session record true)).Endless (Key.record session.token) :=
  ⟨record.encode, find?_writing hn hl hk true⟩

theorem endless_persisting (hg : cache.get now (Key.record session.token) = .ok (some data))
    (hk : Key.index user ≠ Key.record session.token) :
    (cache.serve now (persisting session.token user)).Endless (Key.record session.token) := by
  have ⟨deadline?, hl⟩ := Store.live?_of_get hg
  have hf : (cache.serve now (persisting session.token user)).live? now
      (Key.record session.token) = some ⟨.bytes data, none⟩ := by
    rw [Store.live?_serve, hl]
    simp [persisting, Store.passed, Command.key, Command.effect, hk, Option.filter,
      Store.Slot.isExpired]
  exact Store.endless_of_live? hf

-- A record that could be written is not in the way of the index.
theorem index_of_written (hs : session.state = .held held) (hn : now < Instant.last)
    (hz : session.lifetime ≠ 0)
    (h : (outcome (write never) session .none now sent cache).value.1 = .ok ()) :
    Key.index held.record.user.id ≠ Key.record session.token ∧
      cache.Listable now (Key.index held.record.user.id) := by
  let written := (cache.reply now (.setex (Key.record session.token) session.lifetime
    held.record.encode)).2
  have hw : written.Listable now (Key.index held.record.user.id) := by
    rw [write, outcome_held_bind hs, outcome_get_bind, outcome_send_bind rfl, outcome_bind,
      outcome_send] at h
    cases hr : (written.reply now (.lrem (Key.index held.record.user.id) 0 session.token)).1
    case ok => exact Store.listable_of_lrem hr
    case error =>
      dsimp only at h
      rw [hr] at h
      cases h
  have hd : ¬Store.deadline now session.lifetime ≤ now :=
    UInt64.not_le.mpr (Store.lt_deadline hn hz)
  have ho : written.live? now (Key.record session.token) =
      some ⟨.bytes held.record.encode, some (Store.deadline now session.lifetime)⟩ := by
    refine (cache.becomes_reply now _).own.trans ?_
    simp [Command.effect, Option.filter, Store.Slot.isExpired, hd]
  have hk : Key.index held.record.user.id ≠ Key.record session.token :=
    fun hk => hw _ _ (hk ▸ ho) rfl
  refine ⟨hk, fun slot data hl => hw slot data ?_⟩
  exact (cache.live?_reply_of_ne now now hk).trans hl

-- Without a record that could be loaded the cache stays as it is.
theorem store_of_not_loaded
    (h : ∀ done, (outcome load session .none now sent cache).value.1 ≠ .ok done) :
    (outcome load session .none now sent cache).store = cache := by
  have hl := loaded session now cache sent
  generalize outcome load session .none now sent cache = outcome at h hl
  cases hl
  case failed => rfl
  case found => exact absurd rfl (h ())

theorem store_bind_of_failed {action : Action α} {f : α → Action β} {refuse : Script.Refusal}
    (h : ∀ value, (outcome action session refuse now sent cache).value.1 ≠ .ok value) :
    (outcome (action >>= f) session refuse now sent cache).store =
      (outcome action session refuse now sent cache).store := by
  rw [outcome_bind]
  dsimp only
  split
  case h_1 value hv => exact absurd hv (h value)
  case h_2 => rfl

theorem store_of_unloaded {action : Action α} (hb : Begins action) (hs : session.state = .unloaded)
    (h : ∀ done, (outcome load session .none now sent cache).value.1 ≠ .ok done) :
    (outcome action session .none now sent cache).store = cache := by
  rw [hb.outcome_of_unloaded hs]
  dsimp only
  split
  case h_1 done hd => exact absurd hd (h done)
  case h_2 => exact store_of_not_loaded h

-- A list that is refused is not stored.
theorem store_of_restrict_failed (hs : session.state = .held held)
    (hk : Key.index held.record.user.id ≠ Key.record session.token)
    (hl : cache.Listable now (Key.index held.record.user.id))
    (h : ∀ done, (outcome (restrict grants true) session .none now sent cache).value.1 ≠ .ok done) :
    (outcome (restrict grants true) session .none now sent cache).store = cache := by
  have ⟨answer, next, hr, hf⟩ := Recalls.fullGrants.outcome hs .none now sent cache
  rw [restrict, outcome_bind, hf] at h ⊢
  cases answer
  case error => rfl
  case ok full =>
    dsimp only at h ⊢
    split at h
    case h_1 => rfl
    case h_2 =>
      have hr' : Recalls (activate grants) := .activate
      have hs' : ({ session with state := .held next } : Session).state = .held next := rfl
      have ⟨done, last, hn, ha⟩ := hr'.outcome hs' .none now sent cache
      rw [if_pos rfl, outcome_bind, ha] at h ⊢
      cases done
      case error => rfl
      case ok =>
        have hu : last.record.user.id = held.record.user.id := hn.user.trans hr.user
        dsimp only at h
        rw [outcome_write rfl (hu ▸ hk) (hu ▸ hl)] at h
        exact absurd rfl (h ())

-- A record that could be written without an end belongs to its user from then on.
theorem owned_of_written (hs : session.state = .held held) (hn : now < Instant.last)
    (hz : session.lifetime ≠ 0)
    (h : (outcome (write true) session .none now sent cache).value.1 = .ok ()) :
    Key.index held.record.user.id ≠ Key.record session.token ∧
      Stage.Owned session.token held.record.user.id
        ((Stage.mk session cache sent).after (write true) .none now) ∧
      ((Stage.mk session cache sent).after (write true) .none now).cache.Endless
        (Key.record session.token) := by
  have ⟨hk, hl⟩ := index_of_written hs hn hz h
  have hf : (cache.serve now (writing session held.record true)).find? (Key.record session.token) =
      some ⟨.bytes held.record.encode, none⟩ := find?_writing hn hz hk true
  have ⟨items, hi⟩ := find?_index_writing hz hk hl
  have hc : (cache.serve now (writing session held.record true)).Owned session.token
      held.record.user.id := Store.owned_of_find? hf (Record.belongs_encode held.record) hi
  rw [Stage.after, outcome_write hs hk hl]
  refine ⟨hk, ⟨⟨⟨rfl, ?_⟩, hz⟩, ?_⟩, ?_⟩
  · rintro _ ⟨⟩
    rfl
  · dsimp only
    exact hc
  · dsimp only
    exact ⟨_, hf⟩

theorem endless_of_refresh (hs : session.state = .held held)
    (hk : Key.index held.record.user.id ≠ Key.record session.token)
    (hg : cache.get now (Key.record session.token) = .ok (some data)) :
    (outcome (refresh true) session .none now sent cache).store.Endless
      (Key.record session.token) := by
  rw [outcome_refresh hs]
  exact endless_persisting hg hk

theorem endless_of_save (hs : session.state = .held held)
    (hk : Key.index held.record.user.id ≠ Key.record session.token)
    (hl : cache.Listable now (Key.index held.record.user.id)) (hn : now < Instant.last)
    (hz : session.lifetime ≠ 0)
    (h : held.modified = true ∨
      ∃ data, cache.get now (Key.record session.token) = .ok (some data)) :
    (outcome (save true) session .none now sent cache).store.Endless
      (Key.record session.token) := by
  rw [save, outcome_held_bind hs]
  by_cases hm : held.modified = true
  case pos =>
    rw [if_pos hm, outcome_write hs hk hl]
    dsimp only
    exact endless_writing hn hz hk
  case neg =>
    have ⟨data, hg⟩ := h.resolve_left hm
    rw [if_neg hm]
    exact endless_of_refresh hs hk hg

-- Loading refreshes the lifetime of a record that stays what it is.
theorem get_arriving (hn : now < Instant.last) (hz : session.lifetime ≠ 0)
    (hk : Key.index user ≠ Key.record session.token)
    (hg : cache.get now (Key.record session.token) = .ok (some data)) :
    (cache.serve now (arriving session user)).get now (Key.record session.token) =
      .ok (some data) := by
  have ⟨deadline?, hl⟩ := Store.live?_of_get hg
  have hd : ¬Store.deadline now session.lifetime ≤ now :=
    UInt64.not_le.mpr (Store.lt_deadline hn hz)
  cases hr : session.refreshOnLoad
  case false =>
    rw [arriving, hr]
    exact hg
  case true =>
    rw [Store.get, Store.live?_serve, hl, arriving, hr]
    simp [expiring, Store.passed, Command.key, Command.effect, hk, hz, hd, Option.filter,
      Store.Slot.isExpired]

end Session

-- An operation that needs a record loads it first, or fails.
theorem Begins.begun {stage : Stage} {action : Action α} (hb : Begins action)
    (hs : stage.session.state = .unloaded) (now : Instant) :
    ((∃ error, (Session.outcome action stage.session .none now stage.sent stage.cache).value.1 =
      .error error) ∧ (stage.after action .none now).cache = stage.cache) ∨
      ∃ data record, stage.cache.get now (Key.record stage.session.token) = .ok (some data) ∧
        stage.after Session.load .none now =
          ⟨{ stage.session with state := .held (.of record false) },
            stage.cache.serve now (stage.session.arriving record.user.id),
            stage.sent ++ .get (Key.record stage.session.token) ::
              stage.session.arriving record.user.id⟩ ∧
        let next := stage.after Session.load .none now
        Session.outcome action stage.session .none now stage.sent stage.cache =
          Session.outcome action next.session .none now next.sent next.cache := by
  have ho := hb.outcome_of_unloaded hs .none now stage.sent stage.cache
  have hl := Session.loaded stage.session now stage.cache stage.sent
  simp only [Stage.after]
  generalize Session.outcome Session.load stage.session .none now stage.sent stage.cache = outcome
    at ho hl
  cases hl
  case failed error last h =>
    rw [ho]
    exact .inl ⟨⟨error, rfl⟩, rfl⟩
  case found data record hg _ => exact .inr ⟨data, record, hg, rfl, ho⟩

namespace Stage.Owned

variable {uses : Part → Prop} {stage next last : Stage}

-- No part of an operation is told to give the record a lifetime.
theorem endless_served (ho : stage.Owned token user) (hk : Key.index user ≠ Key.record token)
    (hn : now < Instant.last)
    (hu : ∀ part, uses part → part = .load ∨ part = .write true ∨ part = .refresh true)
    (h : Served uses now stage next)
    (hp : stage.cache.Endless (Key.record token) ∧
      (uses .load → stage.session.refreshOnLoad = false)) :
    next.cache.Endless (Key.record token) ∧
      (uses .load → next.session.refreshOnLoad = false) := by
  obtain ⟨he, hr⟩ := hp
  cases h
  case idle hs _ =>
    obtain rfl | ⟨held, next, _, _, rfl⟩ := hs
    · exact ⟨he, hr⟩
    · exact ⟨he, hr⟩
  case loaded data record hl hg hd =>
    refine ⟨?_, hr⟩
    rw [Session.arriving, hr hl]
    exact he
  case finished held part hl hpart hs =>
    refine ⟨?_, hr⟩
    obtain ⟨hi, _⟩ := ho.servable hk now held hs
    rw [← ho.session.token]
    obtain rfl | rfl | rfl := hu part hl
    · exact absurd rfl hpart
    · dsimp only [Part.commands]
      exact Session.endless_writing hn ho.session.lifetime hi
    · obtain ⟨data, hg⟩ := he.get now
      dsimp only [Part.commands]
      exact Session.endless_persisting (ho.session.token ▸ hg) hi

theorem endless_steps (ho : stage.Owned token user) (hk : Key.index user ≠ Key.record token)
    (hn : now < Instant.last)
    (hu : ∀ part, uses part → part = .load ∨ part = .write true ∨ part = .refresh true)
    (h : stage.Steps uses .none now last) (hp : stage.cache.Endless (Key.record token))
    (hr : uses .load → stage.session.refreshOnLoad = false) :
    last.cache.Endless (Key.record token) := by
  let kept (other : Stage) : Prop := other.Owned token user ∧
    other.cache.Endless (Key.record token) ∧ (uses .load → other.session.refreshOnLoad = false)
  have ⟨_, hl, _⟩ : kept last := by
    refine h.preserve ⟨ho, hp, hr⟩ (fun hs => hs.1.servable hk now) ?_
    rintro stage next ⟨ho, hp⟩ hserved
    exact ⟨hserved.owned ho hk, ho.endless_served hk hn hu hserved hp⟩
  exact hl

theorem cache_of_restrict_failed (ho : stage.Owned token user)
    (hk : Key.index user ≠ Key.record token)
    (hr : stage.session.state = .unloaded → stage.session.refreshOnLoad = false)
    (h : ∀ done, (Session.outcome (Session.restrict grants true) stage.session .none now stage.sent
      stage.cache).value.1 ≠ .ok done) :
    (stage.after (Session.restrict grants true) .none now).cache = stage.cache := by
  have hb : Begins (Session.restrict grants true) := .bind .held
  cases hs : stage.session.state
  case removed => rw [hb.after_of_removed hs]
  case held held =>
    have ⟨hi, hl⟩ := ho.servable hk now held hs
    exact Session.store_of_restrict_failed hs hi hl h
  case unloaded =>
    cases hb.begun hs now
    case inl hf => exact hf.2
    case inr hf =>
      have ⟨data, record, _, hn, he⟩ := hf
      have hw : (stage.after Session.load .none now).Owned token user :=
        (served_load trivial : Served (fun _ => True) now stage _).owned ho hk
      rw [hn] at hw he
      have ⟨hi, hl⟩ := hw.servable hk now _ rfl
      have hc : stage.cache.serve now (stage.session.arriving record.user.id) = stage.cache := by
        rw [Session.arriving, hr hs]
        rfl
      rw [he] at h
      rw [after, he]
      exact (Session.store_of_restrict_failed rfl hi hl h).trans hc

-- What an operation does that succeeds, it does with a record in memory.
theorem endless_of_succeeded (ho : stage.Owned token user) (hk : Key.index user ≠ Key.record token)
    (hn : now < Instant.last) {action : Action Unit} (hb : Begins action)
    (h : (Session.outcome action stage.session .none now stage.sent stage.cache).value.1 = .ok ())
    (hh : ∀ (next : Stage) held, next.Owned token user → next.session.state = .held held →
      (next = stage ∨ ∃ data, next.cache.get now (Key.record token) = .ok (some data)) →
        (next.after action .none now).cache.Endless (Key.record token)) :
    (stage.after action .none now).cache.Endless (Key.record token) := by
  cases hs : stage.session.state
  case removed =>
    rw [hb.outcome_of_removed hs] at h
    exact nomatch h
  case held held => exact hh stage held ho hs (.inl rfl)
  case unloaded =>
    cases hb.begun hs now
    case inl hf =>
      have ⟨⟨error, hf⟩, _⟩ := hf
      exact nomatch h.symm.trans hf
    case inr hf =>
      have ⟨data, record, hg, hl, he⟩ := hf
      have hw : (stage.after Session.load .none now).Owned token user :=
        (served_load trivial : Served (fun _ => True) now stage _).owned ho hk
      rw [hl] at hw he
      have hu : record.user.id = user := hw.session.held _ rfl
      have ht := ho.session.token
      have hi : Key.index record.user.id ≠ Key.record stage.session.token := by
        rw [hu, ht]
        exact hk
      have ha := Session.get_arriving hn ho.session.lifetime hi hg
      rw [after, he]
      exact hh _ _ hw rfl (.inr ⟨data, ht ▸ ha⟩)

theorem endless_of_refresh (ho : stage.Owned token user) (hk : Key.index user ≠ Key.record token)
    (hn : now < Instant.last)
    (h : (Session.outcome (Session.refresh true) stage.session .none now stage.sent
      stage.cache).value.1 = .ok ())
    (hg : stage.cache.get now (Key.record token) = .ok (some data)) :
    (stage.after (Session.refresh true) .none now).cache.Endless (Key.record token) := by
  refine ho.endless_of_succeeded hk hn (.bind .held) h fun next held hw hs hf => ?_
  have ⟨data, hg⟩ : ∃ data, next.cache.get now (Key.record token) = .ok (some data) :=
    hf.elim (fun he => ⟨data, he ▸ hg⟩) id
  have ⟨hi, _⟩ := hw.servable hk now held hs
  have ht := hw.session.token
  exact ht ▸ Session.endless_of_refresh hs hi (ht ▸ hg)

theorem endless_of_save (ho : stage.Owned token user) (hk : Key.index user ≠ Key.record token)
    (hn : now < Instant.last)
    (h : (Session.outcome (Session.save true) stage.session .none now stage.sent
      stage.cache).value.1 = .ok ())
    (hg : stage.session.isModified = true ∨
      ∃ data, stage.cache.get now (Key.record token) = .ok (some data)) :
    (stage.after (Session.save true) .none now).cache.Endless (Key.record token) := by
  refine ho.endless_of_succeeded hk hn .held h fun next held hw hs hf => ?_
  have hg : held.modified = true ∨
      ∃ data, next.cache.get now (Key.record token) = .ok (some data) := by
    obtain rfl | hf := hf
    · rw [Session.isModified_of_held hs] at hg
      exact hg
    · exact .inr hf
  obtain ⟨hi, hl⟩ := hw.servable hk now held hs
  have ht := hw.session.token
  exact ht ▸ Session.endless_of_save hs hi hl hn hw.session.lifetime (ht ▸ hg)

end Stage.Owned
end Entitlement
