import Entitlement.Proofs.Session.Tracking
/-!
The index of a user and the identities that there are. Whatever else is done from an empty cache on,
an identity is listed in the index of its user and in no other one, as long as its token is used for
this user only and nothing that is done about another token lets the index expire before the record.
-/

namespace Entitlement

-- No token is taken for the key of an index, and one of them is used for one user only.
def Deed.Suits (token user : String) : Deed → Prop
  | create other _ | start other _ | lookup other _ => Key.Plain other
  | establish other record _ => Key.Plain other ∧ (other = token → record.user.id = user)
  | operate .. => True

instance (deed : Deed) : Decidable (deed.Suits token user) :=
  match deed with
  | .create other _ | .start other _ | .lookup other _ =>
    inferInstanceAs (Decidable (Key.Plain other))
  | .establish other record _ =>
    inferInstanceAs (Decidable (Key.Plain other ∧ (other = token → record.user.id = user)))
  | .operate .. => .isTrue trivial

structure Session.Fits (token user : String) (session : Session) : Prop where
  plain : Key.Plain session.token
  lifetime : session.lifetime ≠ 0
  owned : session.token = token → session.Owned token user

theorem Directory.value_tokensOf {cache : Store} {now : Instant}
    (h : cache.Listable now (Key.index user)) (sent : List Command) :
    (Script.run .none now (tokensOf user) sent cache).value =
      .ok (cache.listed now (Key.index user)) := by
  have hl : (cache.reply now (.lrange (Key.index user))).1 =
    .ok (cache.listed now (Key.index user)) := h.lrange
  rw [tokensOf, ask]
  change (Script.run .none now (Script.send (.lrange (Key.index user)) _) sent cache).value = _
  rw [Script.run]
  simp only [Script.Refusal.none, hl]
  rfl

namespace World

-- What is done about another token leaves the index there for as long as the record.
def Covers (world : World) (deed : Deed) (now : Instant) (token user : String) : Prop :=
  ∀ worker, world.Worker deed worker → worker.token ≠ token → ∀ later, now ≤ later →
    ((world.after deed .none now).cache.live? later (Key.record token)).isSome →
      ((world.after deed .none now).cache.live? later (Key.index user)).isSome

-- What comes of an empty cache while time goes on.
inductive Reached (token user : String) : Instant → World → Prop where
  | empty {now} : Reached token user now ⟨.empty, []⟩
  | wait {now later world} (h : Reached token user now world) (hn : now ≤ later) :
    Reached token user later world
  | deed {now world deed} (h : Reached token user now world) (hs : deed.Suits token user)
    (hc : world.Covers deed now token user) : Reached token user now (world.after deed .none now)

structure Agrees (token user : String) (now : Instant) (world : World) : Prop where
  indices : ∀ other, world.cache.Guards (Key.index other) fun _ => False
  record : world.cache.Guards (Key.record token) (Record.Belongs user)
  sessions : ∀ session ∈ world.sessions, session.Fits token user
  members : ∀ other, token ∈ world.cache.listed now (Key.index other) → other = user
  enlists : world.cache.Enlists now token user

variable {token user : String} {world : World} {deed : Deed} {now later : Instant}

theorem fits_fresh (token user : String) (hp : Key.Plain other) (config : Config) :
    (Session.fresh other config).Fits token user where
  plain := hp
  lifetime := config.lifetime_ne_zero
  owned h := h ▸ Session.owned_fresh other user config

-- When it does not, the identity is there some time without being listed.
theorem unlisted_of_not_covers (h : ¬world.Covers deed now token user) : ∃ later, now ≤ later ∧
    ((world.after deed .none now).cache.live? later (Key.record token)).isSome ∧
      token ∉ (world.after deed .none now).cache.listed later (Key.index user) := by
  simp only [Covers, Classical.not_forall] at h
  have ⟨_, _, _, later, hn, hr, hi⟩ := h
  refine ⟨later, hn, hr, fun hm => hi ?_⟩
  have ⟨_, hl⟩ := Store.live?_of_mem_listed hm
  exact Option.isSome_of_eq_some hl

namespace Agrees

theorem fits_worker (h : world.Agrees token user now) (hs : deed.Suits token user)
    (hw : world.Worker deed worker) : worker.Fits token user := by
  cases hw
  case start other config => exact fits_fresh token user hs config
  case establish other record config =>
    have ⟨hp, hu⟩ := hs
    refine ⟨hp, config.lifetime_ne_zero, ?_⟩
    rintro rfl
    refine ⟨⟨rfl, ?_⟩, config.lifetime_ne_zero⟩
    rintro _ ⟨⟩
    exact hu rfl
  case lookup other refresh => exact fits_fresh token user hs _
  case operate hm => exact h.sessions worker (List.mem_of_getElem? hm)

theorem empty (token user : String) (now : Instant) : Agrees token user now ⟨.empty, []⟩ where
  indices _ _ _ := nofun
  record _ _ := nofun
  sessions _ := nofun
  members _ := nofun
  enlists _ _ := nofun

theorem wait (h : world.Agrees token user now) (hn : now ≤ later) :
    world.Agrees token user later where
  indices := h.indices
  record := h.record
  sessions := h.sessions
  members other hm := h.members other (Store.mem_listed_of_later hn hm)
  enlists := h.enlists.mono hn

theorem step (h : world.Agrees token user now) (hk : Key.Plain token) (hs : deed.Suits token user)
    (hc : world.Covers deed now token user) :
    (world.after deed .none now).Agrees token user now := by
  cases world.course deed .none now
  case inl hi =>
    have hcache : (world.after deed .none now).cache = world.cache := hi.store
    refine ⟨hcache ▸ h.indices, hcache ▸ h.record, fun session hm => ?_, hcache ▸ h.members,
      hcache ▸ h.enlists⟩
    obtain hm | ⟨other, config, rfl, rfl⟩ := hi.sessions session hm
    · exact h.sessions session hm
    · exact fits_fresh token user hs config
  case inr hd =>
    obtain ⟨worker, last, hd⟩ := hd
    have hw : worker.Fits token user := h.fits_worker hs hd.begins
    have hu : Coherent (deed.Uses worker) := deed.coherent worker
    have ho : Stage.Sound worker.token ⟨worker, world.cache, []⟩ := ⟨rfl, hw.lifetime, h.indices⟩
    have hl := hd.steps.sound hw.plain ho
    have sessions (hlast : worker.token = token → last.Owned token user) :
        ∀ session ∈ (world.after deed .none now).sessions, session.Fits token user := by
      intro session hm
      obtain hm | rfl := hd.sessions session hm
      · exact h.sessions session hm
      · exact ⟨hl.token ▸ hw.plain, hl.lifetime, fun he => hlast (hl.token.symm.trans he)⟩
    by_cases ht : worker.token = token
    case pos =>
      subst ht
      have hf := hd.steps.tends hw.plain ho hu ⟨hw.owned rfl, h.record, h.indices user⟩ h.enlists
      refine ⟨hl.indices, hf.cache.record, sessions fun _ => hf.session, fun other hm => ?_,
        hf.enlists⟩
      by_contra hne
      have hi := hf.frame (Key.index other) (hk.apart other) fun he => hne (Key.index_inj.mp he)
      rw [after, Store.listed_congr hi] at hm
      exact hne (h.members other hm)
    case neg =>
      have hne : token ≠ worker.token := Ne.symm ht
      have hf := hd.steps.spares hw.plain ho hu
      refine ⟨hl.indices, h.record.congr ((hf user).find?_record hk hne),
        sessions fun he => absurd he ht, fun other hm => ?_, ?_⟩
      · exact h.members other (((hf other).members token hm).resolve_left hne)
      · exact (hf user).enlists hk hne h.enlists (hc worker hd.begins ht)

theorem indexed {record : Record} (h : world.Agrees token user now)
    (hg : world.cache.get now (Key.record token) = .ok (some data))
    (hd : Record.decode? data = some record) (other : String) : ∃ tokens,
      (Script.run .none now (Directory.tokensOf other) [] world.cache).value = .ok tokens ∧
        (token ∈ tokens ↔ other = record.user.id) := by
  obtain rfl : record.user.id = user := h.record.get hg record hd
  have hl : world.cache.Listable now (Key.index other) := (h.indices other).listable
  refine ⟨_, Directory.value_tokensOf hl [], h.members other, ?_⟩
  rintro rfl
  have ⟨_, hl⟩ := Store.live?_of_get hg
  exact h.enlists now (UInt64.le_refl now) (Option.isSome_of_eq_some hl)

end Agrees

theorem Reached.agrees (h : Reached token user now world) (hk : Key.Plain token) :
    world.Agrees token user now := by
  induction h
  case empty => exact .empty ..
  case wait hn hi => exact hi.wait hn
  case deed hs hc hi => exact hi.step hk hs hc

-- While there is an identity it is listed in the index of its user, and in no other one.
theorem indexed_of_reached (h : Reached token user now world) (hk : Key.Plain token)
    (hg : world.cache.get now (Key.record token) = .ok (some data))
    (hd : Record.decode? data = some record) (other : String) : ∃ tokens,
      (Script.run .none now (Directory.tokensOf other) [] world.cache).value = .ok tokens ∧
        (token ∈ tokens ↔ other = record.user.id) :=
  (h.agrees hk).indexed hg hd other

-- Two identities of a user, and the index lasts as long as the second of them.
theorem indexed_beside_longer :
    let first := (World.mk .empty []).after
      (.establish "t" (.create "bob" []) { connected := true }) .none 0
    let both := first.after (.establish "s" (.create "bob" [])
      { connected := true, settings := { lifetime := 7200 } }) .none 0
    ∀ other, ∃ tokens,
      (Script.run .none 1000 (Directory.tokensOf other) [] both.cache).value = .ok tokens ∧
        ("t" ∈ tokens ↔ other = "bob") := by
  intro first both other
  have plain : Key.Plain "t" ∧ Key.Plain "s" := by
    constructor
    all_goals
      intro user he
      simp [← String.toList_inj] at he
  have hf : Reached "t" "bob" 0 first := by
    refine .deed .empty ⟨plain.1, fun _ => rfl⟩ ?_
    rintro worker ⟨⟩ ht
    exact absurd rfl ht
  have hb : Reached "t" "bob" 0 both := by
    have hr : (both.cache.find? (Key.record "t")).map Store.Slot.deadline? = some (some 3600000) := by
      decide +kernel
    have hi : (both.cache.find? (Key.index "bob")).map Store.Slot.deadline? =
        some (some 7200000) := by decide +kernel
    exact .deed hf ⟨plain.2, nofun⟩ fun _ _ _ _ _ => Store.isSome_live?_of_le hr hi (by decide)
  have hb : Reached "t" "bob" 1000 both := hb.wait (by decide)
  let record : Record := (Held.of { Record.create "bob" [] with uid := "t" } true).record
  have hg : both.cache.get 1000 (Key.record "t") = .ok (some record.encode) := by decide +kernel
  have hd : Record.decode? record.encode = some record := Record.Bare.decode?_encode ⟨rfl, rfl⟩
  exact indexed_of_reached hb plain.1 hg hd other

-- The index lasts no longer than what was stored last, and the token stays in the index of a user
-- when it is used for another one.
theorem unlisted_and_misplaced :
    let first := (World.mk .empty []).after
      (.establish "t" (.create "bob" []) { connected := true }) .none 0
    let brief := first.after (.establish "s" (.create "bob" [])
      { connected := true, settings := { lifetime := 10 } }) .none 0
    let taken := first.after (.establish "t" (.create "eve" []) { connected := true }) .none 0
    let record (user : String) := (Held.of { Record.create user [] with uid := "t" } true).record
    brief.cache.get 10000 (Key.record "t") = .ok (some (record "bob").encode) ∧
      Record.decode? (record "bob").encode = some (record "bob") ∧ (record "bob").user.id = "bob" ∧
      (Script.run .none 10000 (Directory.tokensOf "bob") [] brief.cache).value = .ok [] ∧
      taken.cache.get 0 (Key.record "t") = .ok (some (record "eve").encode) ∧
      Record.decode? (record "eve").encode = some (record "eve") ∧ (record "eve").user.id = "eve" ∧
      (Script.run .none 0 (Directory.tokensOf "bob") [] taken.cache).value = .ok ["t"] := by
  intro first brief taken record
  have hd (user : String) : Record.decode? (record user).encode = some (record user) :=
    Record.Bare.decode?_encode ⟨rfl, rfl⟩
  refine ⟨?_, hd "bob", rfl, ?_, ?_, hd "eve", rfl, ?_⟩
  all_goals decide +kernel

end World
end Entitlement
