import Entitlement.Proofs.Session.Deed
import Entitlement.Proofs.Session.Record
import Entitlement.Proofs.Session.Service
/-!
An identity belongs to one user: so do the records of a token, in memory as well as in the cache, and
nothing but a list lies under the index of the user. As long as no record of another user is put
there, no step changes this, and every part of an operation does what it is meant to do.
-/

namespace Entitlement

variable {token user : String} {now : Instant}

structure Store.Owned (token user : String) (store : Store) : Prop where
  record : store.Guards (Key.record token) (Record.Belongs user)
  index : store.Guards (Key.index user) fun _ => False

structure Session.Owned (token user : String) (session : Session) : Prop
    extends session.Sane token fun held => held.record.user.id = user where
  lifetime : session.lifetime ≠ 0

structure Stage.Owned (token user : String) (stage : Stage) : Prop where
  session : stage.session.Owned token user
  cache : stage.cache.Owned token user

theorem Config.lifetime_ne_zero (config : Config) : config.lifetime ≠ 0 := by
  rw [lifetime]
  split
  · decide
  · assumption

theorem Store.owned_of_find? {store : Store}
    (hr : store.find? (Key.record token) = some ⟨.bytes data, deadline?⟩)
    (hb : Record.Belongs user data)
    (hi : store.find? (Key.index user) = some ⟨.list items, expiry?⟩) : store.Owned token user where
  record slot bytes hs hd := by
    cases hr.symm.trans hs
    cases hd
    exact hb
  index slot bytes hs hd := by
    cases hi.symm.trans hs
    exact nomatch hd

namespace Session

variable {session : Session} {record : Record} {config : Config}

theorem owned_fresh (token user : String) (config : Config) :
    (fresh token config).Owned token user :=
  ⟨⟨rfl, nofun⟩, config.lifetime_ne_zero⟩

-- What a session sends about its lifetime writes nothing.
theorem setex_not_mem_arriving : .setex key ttl data ∉ session.arriving user := by
  rw [arriving]
  split <;> simp [expiring]

end Session

-- All that is ever written is the record in memory, under the token.
theorem Part.written {session : Session} {record : Record} {part : Part}
    (h : .setex key ttl data ∈ part.commands session record) :
    key = Key.record session.token ∧ data = record.encode := by
  cases part
  case load => exact nomatch h
  case write never => cases never <;> simp_all [commands, Session.writing, Session.persisting]
  case expire seconds => simp [commands, Session.expiring] at h
  case refresh never =>
    cases never <;> simp [commands, Session.refreshing, Session.persisting, Session.expiring] at h
  case remove => simp [commands, Session.removing] at h

namespace Stage

variable {uses : Part → Prop} {stage next last : Stage}

theorem Owned.servable (h : stage.Owned token user) (hk : Key.index user ≠ Key.record token)
    (now : Instant) : stage.Servable now := by
  intro held hs
  rw [h.session.held held hs, h.session.token]
  exact ⟨hk, h.cache.index.listable⟩

theorem Served.owned (h : Served uses now stage next) (ho : stage.Owned token user)
    (hk : Key.index user ≠ Key.record token) : next.Owned token user := by
  have ⟨⟨⟨ht, hh⟩, hl⟩, hr, hi⟩ := ho
  cases h
  case idle hs _ =>
    obtain rfl | ⟨held, next, hr', hs, rfl⟩ := hs
    · exact ⟨ho.session, ho.cache⟩
    · refine ⟨⟨⟨ht, ?_⟩, hl⟩, ho.cache⟩
      rintro _ ⟨⟩
      exact hr'.user.trans (hh held hs)
  case loaded data record hu hg hd =>
    have hb : Record.Belongs user data := hr.get (ht ▸ hg)
    refine ⟨⟨⟨ht, ?_⟩, hl⟩, hr.serve ?_, hi.serve ?_⟩
    · rintro _ ⟨⟩
      exact hb record hd
    · exact fun _ _ hm => absurd hm Session.setex_not_mem_arriving
    · exact fun _ _ hm => absurd hm Session.setex_not_mem_arriving
  case finished held part hu hp hs =>
    refine ⟨⟨⟨ht, ?_⟩, hl⟩, hr.serve ?_, hi.serve ?_⟩
    · intro next hn
      have hu : next.record.user.id = held.record.user.id := by
        cases part <;> cases hn <;> rfl
      exact hu.trans (hh held hs)
    · intro ttl data hm
      obtain ⟨-, rfl⟩ := Part.written hm
      exact hh held hs ▸ Record.belongs_encode held.record
    · intro ttl data hm
      exact hk ((Part.written hm).1.trans (congrArg Key.record ht))

theorem Steps.owned (h : stage.Steps uses .none now last) (ho : stage.Owned token user)
    (hk : Key.index user ≠ Key.record token) : last.Owned token user :=
  h.preserve ho (·.servable hk now) fun ho hserved => hserved.owned ho hk

end Stage
end Entitlement
