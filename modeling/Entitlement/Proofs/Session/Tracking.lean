import Entitlement.Proofs.Session.Enlist
import Entitlement.Proofs.Session.Ownership
/-!
The indices in the course of one deed. Each part of the work is about one index; this one goes on
listing what it listed, apart from the token of the deed, unless it is given up. Then nothing that
comes later in the deed brings it back.
-/

namespace Entitlement

open Store (deadline)

variable {token user : String} {now : Instant}

-- What can happen within one deed: it writes in one way, and no index that it gave up is written to
-- be kept.
structure Coherent (uses : Part → Prop) : Prop where
  write : uses (.write never) → uses (.write other) → never = other
  load : uses .load → ¬uses (.write true)
  expire : uses (.expire seconds) → ¬uses (.write never)
  refresh : uses (.refresh never) → ¬uses (.write other)

-- What is written in a deed is over at once.
def Fleeting (uses : Part → Prop) (now : Instant) (lifetime : UInt64) : Prop :=
  ∀ never, uses (.write never) → never = false ∧ ¬now < deadline now lifetime

namespace Stage

-- The index was given up in a deed, for good.
structure Lost (uses : Part → Prop) (now : Instant) (user : String) (stage : Stage) : Prop where
  index : stage.cache.live? now (Key.index user) = none
  fleeting : Fleeting uses now stage.session.lifetime

-- A session that has a lifetime, and under the indices nothing but lists.
structure Sound (token : String) (stage : Stage) : Prop where
  token : stage.session.token = token
  lifetime : stage.session.lifetime ≠ 0
  indices : ∀ user, stage.cache.Guards (Key.index user) fun _ => False

-- A part of a deed is about one index. If the index ends nothing is written to be kept, and if it
-- comes back it had not been given up.
structure Passes (uses : Part → Prop) (now : Instant) (token user : String) (ends revives : Prop)
    (stage next : Stage) : Prop
    extends Store.Passage now token user ends revives stage.cache next.cache where
  lifetime : next.session.lifetime = stage.session.lifetime
  fleeting : ends → Fleeting uses now stage.session.lifetime
  kept : revives → ¬stage.Lost uses now user

-- What became of the other records and of an index since a deed began.
structure Spares (uses : Part → Prop) (now : Instant) (token user : String) (cache : Store)
    (stage : Stage) : Prop where
  frame : ∀ key, key ≠ Key.record token → (∀ user, key ≠ Key.index user) →
    stage.cache.find? key = cache.find? key
  members : ∀ other ∈ stage.cache.listed now (Key.index user),
    other = token ∨ other ∈ cache.listed now (Key.index user)
  others : stage.Lost uses now user ∨ ∀ other ∈ cache.listed now (Key.index user), other ≠ token →
    other ∈ stage.cache.listed now (Key.index user)

-- What became of an identity, and of everything else, in a deed that is about it.
structure Tends (now : Instant) (token user : String) (before : Store) (stage : Stage) : Prop
    extends stage.Owned token user where
  frame : ∀ key, key ≠ Key.record token → key ≠ Key.index user →
    stage.cache.find? key = before.find? key
  enlists : stage.cache.Enlists now token user

variable {uses : Part → Prop} {stage next last : Stage} {cache : Store}

theorem Sound.servable (h : stage.Sound token) (hp : Key.Plain token) (now : Instant) :
    stage.Servable now :=
  fun _ _ => ⟨h.token ▸ hp.apart _, (h.indices _).listable⟩

namespace Served

theorem sound (h : Served uses now stage next) (hp : Key.Plain token) (hs : stage.Sound token) :
    next.Sound token := by
  obtain ⟨rfl, hl, hi⟩ := hs
  cases h
  case idle session sent hs _ =>
    obtain rfl | ⟨_, _, _, _, rfl⟩ := hs
    all_goals exact ⟨rfl, hl, hi⟩
  case loaded =>
    refine ⟨rfl, hl, fun user => (hi user).serve fun _ _ hm => ?_⟩
    exact Session.setex_not_mem_arriving hm
  case finished =>
    exact ⟨rfl, hl, fun user => (hi user).serve fun _ _ hm => hp.apart user (Part.written hm).1⟩

-- An identity that belongs to a user is about the index of this user.
theorem passes (h : Served uses now stage next) (hu : Coherent uses) (hp : Key.Plain token)
    (hs : stage.Sound token) (user : String) : ∃ other ends revives,
      stage.Passes uses now token other ends revives next ∧
        (stage.Owned token user → other = user) := by
  obtain ⟨rfl, hz, hi⟩ := hs
  cases h
  case idle session sent hs _ =>
    have hl : session.lifetime = stage.session.lifetime := by
      obtain rfl | ⟨_, _, _, _, rfl⟩ := hs
      all_goals rfl
    exact ⟨user, _, _, .mk (Store.passage_refl ..) hl False.elim False.elim, fun _ => rfl⟩
  case loaded data record hl hg hd =>
    have ho : stage.Owned stage.session.token user → record.user.id = user :=
      fun ho => ho.cache.record.get hg record hd
    rw [Session.arriving]
    split
    case isFalse =>
      exact ⟨record.user.id, _, _, .mk (Store.passage_refl ..) rfl False.elim False.elim, ho⟩
    case isTrue =>
      refine ⟨record.user.id, _, _,
        .mk (Store.passage_expiring (hp.apart _) _) rfl (fun he never hw => ?_) False.elim, ho⟩
      cases never
      case true => exact absurd hw (hu.load hl)
      case false => exact ⟨rfl, he.resolve_left hz⟩
  case finished held part hpart hn hs =>
    have ho : stage.Owned stage.session.token user → held.record.user.id = user :=
      fun ho => ho.session.held held hs
    have hk := hp.apart held.record.user.id
    have hlist : stage.cache.Listable now (Key.index held.record.user.id) := (hi _).listable
    cases part
    case load => exact absurd rfl hn
    case write never =>
      refine ⟨_, _, _, .mk (Store.passage_writing hz hk hlist never) rfl (fun he other hw => ?_)
        (fun hr hlost => ?_), ho⟩
      · exact hu.write hpart hw ▸ he
      · obtain ⟨hf, hd⟩ := hlost.fleeting never hpart
        exact hr.elim (fun h => Bool.noConfusion (hf.symm.trans h)) hd
    case expire seconds =>
      exact ⟨_, _, _, .mk (Store.passage_expiring hk seconds) rfl
        (fun _ never hw => absurd hw (hu.expire hpart)) False.elim, ho⟩
    case refresh never =>
      cases never
      case false =>
        exact ⟨_, _, _, .mk (Store.passage_expiring hk _) rfl
          (fun _ never hw => absurd hw (hu.refresh hpart)) False.elim, ho⟩
      case true =>
        exact ⟨_, _, _, .mk (Store.passage_persisting hk) rfl False.elim False.elim, ho⟩
    case remove =>
      exact ⟨_, _, _, .mk (Store.passage_removing hk hlist) rfl False.elim False.elim, ho⟩

end Served
namespace Spares

theorem begin (uses : Part → Prop) (now : Instant) (token user : String) (stage : Stage) :
    stage.Spares uses now token user stage.cache where
  frame _ _ _ := rfl
  members _ hm := .inr hm
  others := .inr fun _ hm _ => hm

theorem pass (h : stage.Spares uses now token user cache) (hk : Key.Plain token)
    (hp : stage.Passes uses now token other ends revives next) :
    next.Spares uses now token user cache := by
  have frame : ∀ key, key ≠ Key.record token → (∀ user, key ≠ Key.index user) →
      next.cache.find? key = cache.find? key :=
    fun key hr hi => (hp.frame key hr (hi other)).trans (h.frame key hr hi)
  by_cases ho : other = user
  case neg =>
    -- The index is not the one that the part is about.
    have hf : next.cache.find? (Key.index user) = stage.cache.find? (Key.index user) :=
      hp.frame _ (hk.apart user) fun he => ho (Key.index_inj.mp he).symm
    have hv : next.cache.live? now (Key.index user) = stage.cache.live? now (Key.index user) :=
      Store.live?_congr hf now
    have hl : next.cache.listed now (Key.index user) = stage.cache.listed now (Key.index user) :=
      Store.listed_congr hf
    refine ⟨frame, hl ▸ h.members, ?_⟩
    obtain hlost | ho := h.others
    · exact .inl ⟨hv.trans hlost.index, hp.lifetime ▸ hlost.fleeting⟩
    · exact .inr (hl ▸ ho)
  case pos =>
    subst ho
    refine ⟨frame, fun value hm => ?_, ?_⟩
    · obtain ⟨_, hn⟩ | ⟨hl, _⟩ := hp.listed
      · rw [Store.listed, hn] at hm
        cases hm
      · exact (hl value hm).elim .inl (h.members value)
    · obtain ⟨hends, hn⟩ | ⟨_, hl⟩ := hp.listed
      · exact .inl ⟨hn, hp.lifetime ▸ hp.fleeting hends⟩
      · obtain hlost | ho := h.others
        · obtain hrev | hn := hp.gone hlost.index
          · exact absurd hlost (hp.kept hrev)
          · exact .inl ⟨hn, hp.lifetime ▸ hlost.fleeting⟩
        · exact .inr fun value hm hne => hl value (ho value hm hne) hne

section

variable (h : stage.Spares uses now token user cache) (hp : Key.Plain other) (ho : other ≠ token)
include h hp ho

theorem find?_record : stage.cache.find? (Key.record other) = cache.find? (Key.record other) :=
  h.frame _ (fun he => ho (Key.record_inj.mp he)) fun user => (hp.apart user).symm

-- Another identity goes on being listed if the index lasts as long as the record.
theorem enlists (he : cache.Enlists now other user)
    (hc : ∀ later, now ≤ later → (stage.cache.live? later (Key.record other)).isSome →
      (stage.cache.live? later (Key.index user)).isSome) :
    stage.cache.Enlists now other user := by
  intro later hn hr
  have hi := hc later hn hr
  rw [Store.live?_congr (h.find?_record hp ho)] at hr
  have hm := Store.mem_listed_of_later hn (he later hn hr)
  obtain hlost | hothers := h.others
  · rw [Store.live?_eq_none_later hlost.index hn] at hi
    cases hi
  · exact Store.listed_later hn hi ▸ hothers other hm ho

end

end Spares

namespace Steps

variable (h : stage.Steps uses .none now last) (hk : Key.Plain token) (hs : stage.Sound token)
include h hk hs

theorem sound : last.Sound token :=
  h.preserve hs (·.servable hk now) fun hs hserved => hserved.sound hk hs

theorem tends (hu : Coherent uses) (ho : stage.Owned token user)
    (he : stage.cache.Enlists now token user) : last.Tends now token user stage.cache := by
  let kept (other : Stage) : Prop := other.Sound token ∧ other.Tends now token user stage.cache
  have ⟨_, hl⟩ : kept last := by
    refine h.preserve ⟨hs, ho, fun _ _ _ => rfl, he⟩ (fun hp => hp.1.servable hk now) ?_
    rintro stage next ⟨hs, ht⟩ hserved
    have ⟨other, _, _, hp, hother⟩ := hserved.passes hu hk hs user
    obtain rfl : user = other := (hother ht.toOwned).symm
    exact ⟨hserved.sound hk hs, hserved.owned ht.toOwned (hk.apart user),
      fun key hr hi => (hp.frame key hr hi).trans (ht.frame key hr hi), hp.enlists ht.enlists⟩
  exact hl

theorem spares (hu : Coherent uses) (user : String) :
    last.Spares uses now token user stage.cache := by
  let kept (other : Stage) : Prop :=
    other.Sound token ∧ other.Spares uses now token user stage.cache
  have ⟨_, hl⟩ : kept last := by
    refine h.preserve ⟨hs, .begin uses now token user stage⟩ (fun hp => hp.1.servable hk now) ?_
    rintro stage next ⟨hs, hspares⟩ hserved
    have ⟨_, _, _, hp, _⟩ := hserved.passes hu hk hs user
    exact ⟨hserved.sound hk hs, hspares.pass hk hp⟩
  exact hl

end Steps
end Stage
namespace Deed

variable {deed : Deed} {worker : Session}

-- An identity is written when it is stored, narrowed or saved; then there was a record in memory.
theorem uses_write (h : deed.Uses worker (.write never)) :
    (∃ token record config, deed = .establish token record config ∧
      never = config.settings.neverExpires) ∨
    (∃ index grants, deed = .operate index (.restrict grants true) ∧ never = false) ∨
    ∃ index, deed = .operate index (.save never) ∧ worker.isModified = true := by
  generalize hp : Part.write never = part at h
  cases h
  case establish token record config =>
    cases hp
    exact .inl ⟨token, record, config, rfl, rfl⟩
  case operate index operation hu =>
    cases hu
    case restrict grants =>
      cases hp
      exact .inr (.inl ⟨index, grants, rfl, rfl⟩)
    case saveModified never hm =>
      cases hp
      exact .inr (.inr ⟨index, rfl, hm⟩)
    all_goals exact nomatch hp
  all_goals exact nomatch hp

theorem coherent (deed : Deed) (worker : Session) : Coherent (deed.Uses worker) := by
  constructor
  case write =>
    intro never other hn ho
    obtain ⟨_, _, _, rfl, rfl⟩ | ⟨_, _, rfl, rfl⟩ | ⟨_, rfl, _⟩ := uses_write hn
    all_goals
      obtain ⟨_, _, _, ⟨⟩, rfl⟩ | ⟨_, _, ⟨⟩, rfl⟩ | ⟨_, ⟨⟩, _⟩ := uses_write ho
      rfl
  case load =>
    intro hl hw
    obtain ⟨_, _, _, rfl, _⟩ | ⟨_, _, _, hf⟩ | ⟨_, rfl, hm⟩ := uses_write hw
    · cases hl
    · cases hf
    · cases hl
      case begin hs _ =>
        rw [Session.isModified, hs] at hm
        cases hm
      case operate h => cases h
  case expire =>
    intro seconds never he hw
    obtain ⟨_, _, _, rfl, _⟩ | ⟨_, _, rfl, _⟩ | ⟨_, rfl, _⟩ := uses_write hw
    · cases he
    · cases he
      case operate h => cases h
    · cases he
      case operate h => cases h
  case refresh =>
    intro never other hr hw
    obtain ⟨_, _, _, rfl, _⟩ | ⟨_, _, rfl, _⟩ | ⟨_, rfl, hm⟩ := uses_write hw
    · cases hr
    · cases hr
      case operate h => cases h
    · cases hr
      case operate h =>
        cases h
        case saveUnmodified hf => exact Bool.noConfusion (hf.symm.trans hm)

end Deed
end Entitlement
