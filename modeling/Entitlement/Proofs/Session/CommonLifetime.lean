import Entitlement.Proofs.Session.Index
/-!
Identities that all get one lifetime. No record has more time left than is given to an index, so
that no index ends before a record that it lists. Whether there is one lifetime can be read off the
settings and the operations.
-/

namespace Entitlement

open Store (Slot deadline)

variable {token user worker : String} {seconds : UInt64} {now later : Instant} {command : Command}
  {commands : List Command}

-- What a session sends about its token when nothing is given any other lifetime.
inductive Command.KeepsTo (seconds : UInt64) (token : String) : Command → Prop
  | setex {data} : KeepsTo seconds token (.setex (Key.record token) seconds data)
  | expireRecord : KeepsTo seconds token (.expire (Key.record token) seconds)
  | delete : KeepsTo seconds token (.delete (Key.record token))
  | expireIndex {name} : KeepsTo seconds token (.expire (Key.index name) seconds)
  | lrem {name} : KeepsTo seconds token (.lrem (Key.index name) 0 token)
  | lpush {name} : KeepsTo seconds token (.lpush (Key.index name) token)

theorem Command.KeepsTo.key (h : command.KeepsTo seconds token) :
    command.key = Key.record token ∨ ∃ user, command.key = Key.index user := by
  cases h
  case setex | expireRecord | delete => exact .inl rfl
  case expireIndex user | lrem user | lpush user => exact .inr ⟨user, rfl⟩

namespace Store

variable {store : Store} {slot : Slot}

theorem le_deadline (now : Instant) (seconds : UInt64) : now ≤ deadline now seconds := by
  have hs : now.toNat < UInt64.size := now.toNat_lt
  rw [UInt64.le_iff_toNat_le, toNat_deadline]
  omega

theorem ne_zero_of_lt_deadline (hd : now < deadline now seconds) : seconds ≠ 0 := by
  rintro rfl
  have hd : now.toNat < (deadline now 0).toNat := UInt64.lt_iff_toNat_lt.mp hd
  rw [toNat_deadline] at hd
  exact Nat.lt_irrefl _ (Nat.lt_of_lt_of_le hd (Nat.min_le_left ..))

theorem deadline_le (hn : now ≤ later) : deadline now seconds ≤ deadline later seconds := by
  have hn : now.toNat ≤ later.toNat := UInt64.le_iff_toNat_le.mp hn
  rw [UInt64.le_iff_toNat_le, toNat_deadline, toNat_deadline]
  omega

-- What is under a key will be over by the end of a lifetime that begins now.
def EndsWithin (store : Store) (now : Instant) (key : String) (seconds : UInt64) : Prop :=
  store.live? (deadline now seconds) key = none

namespace EndsWithin

theorem wait (h : store.EndsWithin now key seconds) (hn : now ≤ later) :
    store.EndsWithin later key seconds :=
  live?_eq_none_later h (deadline_le hn)

theorem lt_deadline (h : store.EndsWithin now key seconds) (hl : (store.live? later key).isSome) :
    later < deadline now seconds := by
  by_contra hd
  rw [live?_eq_none_later h (UInt64.not_lt.mp hd)] at hl
  cases hl

theorem reply (h : store.EndsWithin now (Key.record token) seconds) (hp : Key.Plain token)
    (hc : command.KeepsTo seconds worker) :
    (store.reply now command).2.EndsWithin now (Key.record token) seconds := by
  by_cases hk : Key.record token = command.key
  case neg => exact (live?_reply_of_ne store now _ hk).trans h
  case pos =>
    have hd : now ≤ deadline now seconds := le_deadline now seconds
    rw [EndsWithin, live?_later hd, live?_reply, passed, if_pos hk.symm, filter_later _ hd]
    cases hc
    case setex => simp [Command.effect, Option.filter, Slot.isExpired]
    case expireRecord =>
      by_cases hz : seconds = 0
      all_goals
        cases store.live? now (Key.record token)
        all_goals simp [Command.effect, Option.filter, Slot.isExpired, hz]
    case delete => rfl
    case expireIndex | lrem | lpush => exact absurd hk.symm (hp.apart _)

theorem serve (h : store.EndsWithin now (Key.record token) seconds) (hp : Key.Plain token)
    (hc : ∀ command ∈ commands, command.KeepsTo seconds worker) :
    (store.serve now commands).EndsWithin now (Key.record token) seconds := by
  induction commands generalizing store
  case nil => exact h
  case cons command commands hi =>
    have ⟨hf, hr⟩ := List.forall_mem_cons.mp hc
    exact hi (h.reply hp hf) hr

end EndsWithin

-- An index goes on with all its items but the token of the session, and it lasts as long as before
-- or for a whole lifetime.
theorem passed_index (hc : command.KeepsTo seconds worker)
    (hw : Key.Plain worker) (hk : command.key = Key.index user)
    (hd : deadline?.any (· ≤ now) = false) (hs : now < deadline now seconds)
    (hm : token ∈ items) (hne : token ≠ worker) : ∃ kept last?,
      passed now (Key.index user) (some ⟨.list items, deadline?⟩) command =
        some ⟨.list kept, last?⟩ ∧
      token ∈ kept ∧ (last? = deadline? ∨ last? = some (deadline now seconds)) := by
  cases hc
  case setex | expireRecord | delete => exact absurd hk.symm (hw.apart user)
  case expireIndex =>
    refine ⟨items, _, ?_, hm, .inr rfl⟩
    simp [hk, hs, passed, Command.effect, Option.filter, Slot.isExpired, ne_zero_of_lt_deadline hs]
  case lrem =>
    obtain rfl := Key.index_inj.mp hk
    have hf : token ∈ items.filter (· ≠ worker) := List.mem_filter.mpr ⟨hm, decide_eq_true hne⟩
    refine ⟨_, _, ?_, hf, .inl rfl⟩
    rw [passed_lrem hd, if_neg (List.ne_nil_of_mem hf)]
  case lpush =>
    refine ⟨worker :: items, _, ?_, List.mem_cons_of_mem _ hm, .inl rfl⟩
    simp [hk, hd, passed, Command.effect, Option.filter, Slot.isExpired]

-- A token goes on being listed whatever a session sends about another one, since the index is given
-- as much time as there can be left for the record.
theorem Enlists.reply (h : store.Enlists now token user)
    (he : store.EndsWithin now (Key.record token) seconds) (hp : Key.Plain token)
    (hw : Key.Plain worker) (hne : token ≠ worker) (hc : command.KeepsTo seconds worker) :
    (store.reply now command).2.Enlists now token user := by
  have hk : Key.record token ≠ command.key := by
    obtain hk | ⟨other, hk⟩ := hc.key
    · exact fun he => hne (Key.record_inj.mp (he.trans hk))
    · exact fun he => hp.apart other (he.trans hk).symm
  intro later hn hr
  rw [live?_reply_of_ne store now later hk] at hr
  have hd : later < deadline now seconds := he.lt_deadline hr
  have hm : token ∈ store.listed later (Key.index user) := h later hn hr
  by_cases hi : Key.index user = command.key
  case neg =>
    rw [listed, live?_reply_of_ne store now later hi]
    exact hm
  case pos =>
    obtain ⟨deadline?, ho⟩ := live?_of_mem_listed hm
    rw [live?_later hn] at ho
    obtain ⟨ho, hx⟩ := Option.filter_eq_some_iff.mp ho
    obtain ⟨kept, last?, hkept, hm, hlast⟩ := passed_index hc hw hi.symm (live?_eq_some.mp ho).2
      (UInt64.lt_of_le_of_lt hn hd) hm hne
    have hl : (store.reply now command).2.live? later (Key.index user) =
        some ⟨.list kept, last?⟩ := by
      rw [live?_later hn, live?_reply, ho, hkept]
      refine Option.filter_eq_some_iff.mpr ⟨rfl, ?_⟩
      obtain rfl | rfl := hlast
      · exact hx
      · exact (Bool.not_eq_true' _).mpr (decide_eq_false (UInt64.not_le.mpr hd))
    exact listed_of_live? hl ▸ hm

theorem Enlists.serve (h : store.Enlists now token user)
    (hl : store.EndsWithin now (Key.record token) seconds) (hp : Key.Plain token)
    (hw : Key.Plain worker) (hne : token ≠ worker)
    (hc : ∀ command ∈ commands, command.KeepsTo seconds worker) :
    (store.serve now commands).Enlists now token user := by
  induction commands generalizing store
  case nil => exact h
  case cons command commands hi =>
    have ⟨hf, hr⟩ := List.forall_mem_cons.mp hc
    exact hi (h.reply hl hp hw hne hf) (hl.reply hp hf) hr

end Store

def Part.KeepsTo (seconds : UInt64) : Part → Prop
  | write never | refresh never => never = false
  | expire other => other = seconds
  | load | remove => True

namespace Session

variable {session : Session} {record : Record} {part : Part}

-- What a session does for a deed gives nothing any other lifetime.
structure KeepsTo (seconds : UInt64) (uses : Part → Prop) (session : Session) : Prop where
  load : uses .load → session.refreshOnLoad → session.lifetime = seconds
  parts : ∀ part, uses part → part ≠ .load → session.lifetime = seconds ∧ part.KeepsTo seconds

theorem keepsTo_expiring (token user : String) (seconds : UInt64) :
    ∀ command ∈ expiring token user seconds, command.KeepsTo seconds token :=
  List.forall_mem_cons.mpr ⟨.expireRecord, List.forall_mem_singleton.mpr .expireIndex⟩

theorem KeepsTo.arriving (h : session.KeepsTo seconds uses) (hu : uses .load) (user : String) :
    ∀ command ∈ session.arriving user, command.KeepsTo seconds session.token := by
  rw [Session.arriving]
  split
  case isTrue hr =>
    obtain rfl := h.load hu hr
    exact keepsTo_expiring _ _ _
  case isFalse => exact List.forall_mem_nil _

theorem KeepsTo.sends (h : session.KeepsTo seconds uses) (hu : uses part) (hp : part ≠ .load)
    (record : Record) :
    ∀ command ∈ part.commands session record, command.KeepsTo seconds session.token := by
  obtain ⟨rfl, hk⟩ := h.parts part hu hp
  cases part
  case load => exact absurd rfl hp
  case write never =>
    cases hk
    exact List.forall_mem_append.mpr ⟨List.forall_mem_cons.mpr ⟨.setex, List.forall_mem_cons.mpr
      ⟨.lrem, List.forall_mem_singleton.mpr .lpush⟩⟩, List.forall_mem_singleton.mpr .expireIndex⟩
  case expire other => exact hk ▸ keepsTo_expiring _ _ _
  case refresh never =>
    cases hk
    exact keepsTo_expiring _ _ _
  case remove => exact List.forall_mem_cons.mpr ⟨.delete, List.forall_mem_singleton.mpr .lrem⟩

end Session

namespace Stage

variable {uses : Part → Prop} {session : Session} {stage next last : Stage}

-- In the course of a deed the record of a token has no more time left than one lifetime, and the
-- token stays listed if the deed is about another one.
structure Levels (uses : Part → Prop) (now : Instant) (seconds : UInt64) (token user : String)
    (session : Session) (stage : Stage) : Prop where
  sound : stage.Sound session.token
  lifetime : stage.session.lifetime = session.lifetime
  keeps : stage.session.KeepsTo seconds uses
  ends : stage.cache.EndsWithin now (Key.record token) seconds
  enlists : token ≠ session.token → stage.cache.Enlists now token user

theorem Served.levels (h : Served uses now stage next) (hp : Key.Plain token)
    (hw : Key.Plain session.token) (hs : stage.Levels uses now seconds token user session) :
    next.Levels uses now seconds token user session := by
  have hsound : next.Sound session.token := h.sound hw hs.sound
  have serve {commands : List Command}
      (hc : ∀ command ∈ commands, command.KeepsTo seconds stage.session.token) :
      (stage.cache.serve now commands).EndsWithin now (Key.record token) seconds ∧
        (token ≠ session.token → (stage.cache.serve now commands).Enlists now token user) :=
    ⟨hs.ends.serve hp hc, fun hne => (hs.enlists hne).serve hs.ends hp hw hne
      (hs.sound.token ▸ hc)⟩
  have ⟨hl, hi⟩ := hs.keeps
  cases h
  case idle next sent hn _ =>
    obtain rfl | ⟨_, _, _, _, rfl⟩ := hn
    all_goals exact ⟨hsound, hs.lifetime, ⟨hl, hi⟩, hs.ends, hs.enlists⟩
  case loaded data record hu hg hd =>
    have ⟨hends, henlists⟩ := serve (hs.keeps.arriving hu record.user.id)
    exact ⟨hsound, hs.lifetime, ⟨hl, hi⟩, hends, henlists⟩
  case finished held part hu hpart hh =>
    have ⟨hends, henlists⟩ := serve (hs.keeps.sends hu hpart held.record)
    exact ⟨hsound, hs.lifetime, ⟨hl, hi⟩, hends, henlists⟩

theorem Steps.levels (h : stage.Steps uses .none now last) (hp : Key.Plain token)
    (hw : Key.Plain session.token) (hs : stage.Levels uses now seconds token user session) :
    last.Levels uses now seconds token user session :=
  h.preserve hs (fun hs => hs.sound.servable hw now) fun hs hserved => hserved.levels hp hw hs

end Stage

def Operation.KeepsTo (seconds : UInt64) : Operation → Prop
  | setLifetime other => other = seconds
  | refresh never | save never => never = false
  | _ => True

-- No identity gets any other lifetime, or none at all. Whoever only looks at an identity refreshes
-- its lifetime with the default.
def Deed.KeepsTo (seconds : UInt64) : Deed → Prop
  | create _ config | start _ config => config.lifetime = seconds
  | establish _ _ config => config.lifetime = seconds ∧ config.settings.neverExpires = false
  | lookup _ refresh => refresh = true → seconds = defaultLifetime
  | operate _ operation => operation.KeepsTo seconds

instance (operation : Operation) : Decidable (operation.KeepsTo seconds) :=
  match operation with
  | .setLifetime other => inferInstanceAs (Decidable (other = seconds))
  | .refresh never | .save never => inferInstanceAs (Decidable (never = false))
  | .load | .record | .user | .activeGrants | .fullGrants | .activate _ | .restrict .. | .restore
  | .can .. | .isActive .. | .remaining | .remove | .intoRecord => .isTrue trivial

instance (deed : Deed) : Decidable (deed.KeepsTo seconds) :=
  match deed with
  | .create _ config | .start _ config => inferInstanceAs (Decidable (config.lifetime = seconds))
  | .establish _ _ config => inferInstanceAs (Decidable (config.lifetime = seconds ∧ _))
  | .lookup _ refresh => inferInstanceAs (Decidable (refresh = true → seconds = defaultLifetime))
  | .operate _ operation => inferInstanceAs (Decidable (operation.KeepsTo seconds))

namespace Deed.KeepsTo

variable {world : World} {deed : Deed} {session : Session}

theorem works (h : deed.KeepsTo seconds) (hw : world.Worker deed session)
    (hl : ∀ session ∈ world.sessions, session.lifetime = seconds) :
    session.KeepsTo seconds (deed.Uses session) := by
  cases hw
  case start =>
    refine ⟨fun _ _ => h, fun part hu hp => ?_⟩
    cases hu
    exact absurd rfl hp
  case establish =>
    refine ⟨fun _ _ => h.1, fun part hu _ => ?_⟩
    cases hu
    exact h
  case lookup =>
    refine ⟨fun _ hr => (h hr).symm, fun part hu hp => ?_⟩
    cases hu
    exact absurd rfl hp
  case operate index operation hm =>
    have hs : session.lifetime = seconds := hl session (List.mem_of_getElem? hm)
    refine ⟨fun _ _ => hs, fun part hu hp => ⟨hs, ?_⟩⟩
    cases hu
    case begin => exact absurd rfl hp
    case operate hu =>
      cases hu
      case load | remove => trivial
      case restrict => rfl
      case setLifetime | refresh | saveModified | saveUnmodified => exact h

-- Who only looks at an identity has a lifetime as well, but does not stay.
theorem lifetime (h : deed.KeepsTo seconds) (hw : world.Worker deed session)
    (hl : ∀ session ∈ world.sessions, session.lifetime = seconds)
    (hn : ∀ token refresh, deed ≠ .lookup token refresh) : session.lifetime = seconds := by
  cases hw
  case start => exact h
  case establish => exact h.1
  case lookup => exact absurd rfl (hn _ _)
  case operate hm => exact hl session (List.mem_of_getElem? hm)

end Deed.KeepsTo

namespace World

variable {world : World} {deed : Deed} {session other : Session}

theorem Worker.eq (h : world.Worker deed session) (ho : world.Worker deed other) :
    session = other := by
  cases h
  case start | establish | lookup =>
    cases ho
    rfl
  case operate hs =>
    cases ho
    case operate hm => exact Option.some.inj (hs.symm.trans hm)

-- What comes of an empty cache while time goes on, if all that is ever done keeps to one lifetime.
inductive Uniform (token user : String) (seconds : UInt64) : Instant → World → Prop where
  | empty {now : Instant} : Uniform token user seconds now ⟨.empty, []⟩
  | wait {now later : Instant} {world : World} (h : Uniform token user seconds now world)
    (hn : now ≤ later) : Uniform token user seconds later world
  | deed {now : Instant} {world : World} {deed : Deed} (h : Uniform token user seconds now world)
    (hs : deed.Suits token user) (hk : deed.KeepsTo seconds) :
    Uniform token user seconds now (world.after deed .none now)

structure Levels (token : String) (seconds : UInt64) (now : Instant) (world : World) : Prop where
  lifetimes : ∀ session ∈ world.sessions, session.lifetime = seconds
  ends : world.cache.EndsWithin now (Key.record token) seconds

theorem covers_of_enlists (h : ∀ session, world.Worker deed session → token ≠ session.token →
    (world.after deed .none now).cache.Enlists now token user) :
    world.Covers deed now token user := by
  intro session hw hne later hn hr
  have ⟨_, hl⟩ := Store.live?_of_mem_listed (h session hw (Ne.symm hne) later hn hr)
  exact Option.isSome_of_eq_some hl

namespace Levels

theorem step (h : world.Levels token seconds now) (ha : world.Agrees token user now)
    (hp : Key.Plain token) (hs : deed.Suits token user) (hk : deed.KeepsTo seconds) :
    world.Covers deed now token user ∧ (world.after deed .none now).Levels token seconds now := by
  cases world.course deed .none now
  case inl hi =>
    have hcache : (world.after deed .none now).cache = world.cache := hi.store
    refine ⟨covers_of_enlists fun _ _ _ => hcache ▸ ha.enlists, fun session hm => ?_,
      hcache ▸ h.ends⟩
    obtain hm | ⟨_, _, rfl, rfl⟩ := hi.sessions session hm
    · exact h.lifetimes session hm
    · exact hk
  case inr hd =>
    obtain ⟨session, last, hd⟩ := hd
    have hw : session.Fits token user := ha.fits_worker hs hd.begins
    have hl : Stage.Levels (deed.Uses session) now seconds token user session
        ⟨last, (world.outcome deed .none now).store, (world.outcome deed .none now).sent⟩ :=
      hd.steps.levels hp hw.plain ⟨⟨rfl, hw.lifetime, ha.indices⟩, rfl,
        hk.works hd.begins h.lifetimes, h.ends, fun _ => ha.enlists⟩
    refine ⟨covers_of_enlists fun other ho hne => ?_, fun left hm => ?_, hl.ends⟩
    · exact hl.enlists (hd.begins.eq ho ▸ hne)
    · by_cases hn : ∃ token refresh, deed = .lookup token refresh
      case pos =>
        obtain ⟨_, _, rfl⟩ := hn
        exact h.lifetimes left hm
      case neg =>
        obtain hm | rfl := hd.sessions left hm
        · exact h.lifetimes left hm
        · exact hl.lifetime.trans (hk.lifetime hd.begins h.lifetimes fun token refresh he =>
            hn ⟨token, refresh, he⟩)

end Levels

theorem Uniform.reached (h : Uniform token user seconds now world) (hp : Key.Plain token) :
    Reached token user now world ∧ world.Levels token seconds now := by
  induction h
  case empty => exact ⟨.empty, nofun, rfl⟩
  case wait hn hi =>
    have ⟨hr, hl⟩ := hi
    exact ⟨hr.wait hn, hl.lifetimes, hl.ends.wait hn⟩
  case deed hs hk hi =>
    have ⟨hr, hl⟩ := hi
    have ⟨hc, hn⟩ := hl.step (hr.agrees hp) hp hs hk
    exact ⟨.deed hr hs hc, hn⟩

-- With one lifetime for all of them, each identity is listed in the index of its user while it is
-- there, and in no other one.
theorem indexed_of_uniform (h : Uniform token user seconds now world) (hp : Key.Plain token)
    (hg : world.cache.get now (Key.record token) = .ok (some data))
    (hd : Record.decode? data = some record) (other : String) : ∃ tokens,
      (Script.run .none now (Directory.tokensOf other) [] world.cache).value = .ok tokens ∧
        (token ∈ tokens ↔ other = record.user.id) :=
  ((h.reached hp).1.agrees hp).indexed hg hd other

example : ∀ deed ∈ [Deed.establish "t" (.create "bob" []) { connected := true },
    .establish "s" (.create "bob" []) { connected := true }, .lookup "s" true,
    .operate 0 (.save false), .operate 1 .remove],
      deed.Suits "t" "bob" ∧ deed.KeepsTo defaultLifetime := by
  decide

end World
end Entitlement
