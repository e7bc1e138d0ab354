import Entitlement.Proofs.Session.Keeps
/-!
What operations do to a session, told once and for all. A property of the record in memory is kept
by all of them if it is kept by the few changes that they make to it (`Upkeep`); for each operation
a triple says in addition what it leaves behind when it succeeds.
-/

namespace Entitlement

-- The changes that operations make to a record in memory, and what they write to the cache.
structure Upkeep (contract : Contract) (token : String) (inv : Held → Prop) : Prop where
  sends : ∀ command, (∀ ttl data, command ≠ .setex (Key.record token) ttl data) →
    contract.sends command
  writes : inv held → ∀ ttl, contract.sends (.setex (Key.record token) ttl held.record.encode)
  loads : contract.replies (.get (Key.record token)) (.ok (some bytes)) →
    Record.decode? bytes = some record → inv (.of record false)
  decodesActive : inv held → Blob.decode held.record.user.perms = .ok grants →
    inv { held with active? := some grants }
  decodesFull : inv held → Blob.decode held.record.full = .ok grants →
    inv { held with full? := some grants }
  restricts : inv held → held.full? = some full →
    (∀ grant ∈ grants, permitted full grant.asRequest) →
      inv (Session.withActive held (Blob.encode (compacted grants)) (compacted grants))
  restores : inv held → held.full? = some full →
    inv (Session.withActive held held.record.full full)
  saves : inv held → inv { held with modified := false }

-- Nothing is known of any record, so that nothing has to be kept.
theorem Upkeep.free (token : String) : Upkeep .free token fun _ => True := by
  constructor
  all_goals intros; trivial

namespace Upkeep

variable {α : Type} {contract : Contract} {token : String} {inv : Held → Prop}
  {pre : Session → Prop} {p : Held → Prop}

theorem tending (u : Upkeep contract token inv) : Tending contract token inv where
  sends _ ht := u.sends _ ht.2
  writes := u.writes
  saves := u.saves

-- Whatever was in memory before, it is the record that was found now.
theorem load (u : Upkeep contract token inv) :
    Keeps contract token inv pre Session.load fun _ session =>
      session.Holding fun held => held.modified = false :=
  u.tending.load (u.sends _ nofun) u.loads

theorem held (u : Upkeep contract token inv) :
    Keeps contract token inv pre Session.held fun value session => session.state = .held value := by
  refine .bind .get fun session => ?_
  dsimp only
  split
  · refine .bind u.load fun _ => .bind .get fun session => ?_
    split
    case h_1 hs => exact .pure fun _ h => h.1 ▸ hs
    case h_2 => exact .throw
    case h_3 => exact .throw
  · refine .bind .get fun session => ?_
    split
    case h_1 hs => exact .pure fun _ h => h.1 ▸ hs
    case h_2 => exact .throw
    case h_3 => exact .throw

theorem record (u : Upkeep contract token inv) :
    Keeps contract token inv pre Session.record fun _ session => session.Holding fun _ => True :=
  .bind u.held fun value => .pure fun _ h => ⟨value, h, trivial⟩

theorem user (u : Upkeep contract token inv) :
    Keeps contract token inv pre Session.user fun name session =>
      session.Holding fun held => held.record.user.id = name :=
  .bind u.held fun value => .pure fun _ h => ⟨value, h, rfl⟩

theorem decoded : Keeps contract token inv pre (Session.decoded blob) fun grants session =>
    pre session ∧ Blob.decode blob = .ok grants := by
  rw [Session.decoded]
  split
  case h_1 hd => exact .pure fun _ h => ⟨h, hd⟩
  case h_2 => exact .throw

theorem activeGrants (u : Upkeep contract token inv) :
    Keeps contract token inv pre Session.activeGrants fun grants session =>
      session.Holding fun held => held.active? = some grants := by
  refine .bind u.held fun value => ?_
  split
  case h_1 grants ha => exact .pure fun _ h => ⟨value, h, ha⟩
  case h_2 =>
    exact .bind decoded fun grants => .bind (.exchange u.decodesActive) fun _ =>
      .pure fun _ h => ⟨_, h, rfl⟩

-- What was known of the record before stays known.
theorem fullGrants_of_held (u : Upkeep contract token inv)
    (hh : Keeps contract token inv pre Session.held
      fun value session => session.state = .held value ∧ p value)
    (hp : ∀ held grants, p held → p { held with full? := some grants }) :
    Keeps contract token inv pre Session.fullGrants fun grants session =>
      session.Holding fun held => held.full? = some grants ∧ p held := by
  refine .bind hh fun value => .given (fun _ _ h => h.2) fun hv => ?_
  split
  case h_1 grants hf => exact .pure fun _ h => ⟨value, h.1, hf, hv⟩
  case h_2 =>
    have hd : Keeps contract token inv (fun session => session.state = .held value ∧ p value)
        (Session.decoded value.record.full) fun grants session =>
          session.state = .held value ∧ Blob.decode value.record.full = .ok grants :=
      decoded.mono (fun _ h => h.1) fun _ _ h => h
    exact .bind hd fun grants => .bind (.exchange u.decodesFull) fun _ =>
      .pure fun _ h => ⟨_, h, rfl, hp value grants hv⟩

theorem fullGrants (u : Upkeep contract token inv) :
    Keeps contract token inv pre Session.fullGrants fun grants session =>
      session.Holding fun held => held.full? = some grants := by
  have hh : Keeps contract token inv pre Session.held fun value session =>
      session.state = .held value ∧ True := u.held.mono (fun _ h => h) fun _ _ h => ⟨h, trivial⟩
  exact (u.fullGrants_of_held hh fun _ _ h => h).mono (fun _ h => h)
    fun _ _ ⟨held, hs, hf, _⟩ => ⟨held, hs, hf⟩

theorem write (u : Upkeep contract token inv) (never : Bool) :
    Keeps contract token inv pre (Session.write never) fun _ session =>
      session.Holding fun _ => True :=
  u.tending.write (u.held.mono (fun _ h => h) fun _ _ h => ⟨h, trivial⟩) (fun _ h => h) never

theorem activate (u : Upkeep contract token inv)
    (hg : ∀ grant ∈ grants, permitted full grant.asRequest) :
    Keeps contract token inv (·.Holding fun held => held.full? = some full)
      (Session.activate grants) fun _ session => session.Holding fun held =>
        held.active? = some (compacted grants) ∧
          held.record.user.perms = Blob.encode (compacted grants) :=
  .bind .held fun _ =>
    (Keeps.exchange fun hi hf => u.restricts hi hf hg).mono (fun _ h => h) fun _ _ h => ⟨_, h, rfl, rfl⟩

-- The list that was asked for is active afterwards, also if the record was written then.
theorem restrict (u : Upkeep contract token inv) (grants : List Grant) (store : Bool) :
    Keeps contract token inv pre (Session.restrict grants store) fun _ session =>
      session.Holding fun held => held.active? = some (compacted grants) ∧
        held.record.user.perms = Blob.encode (compacted grants) := by
  refine .bind u.fullGrants fun full => ?_
  split
  case h_1 => exact .throw
  case h_2 hf =>
    have hg : ∀ grant ∈ grants, permitted full grant.asRequest := by simpa using hf
    refine .bind (u.activate hg) fun _ => ?_
    split
    · exact u.tending.write .held (fun _ h => h) false
    · exact .pure fun _ h => h

theorem restore (u : Upkeep contract token inv) :
    Keeps contract token inv pre Session.restore fun _ session =>
      session.Holding fun held => ∃ full, held.full? = some full ∧ held.active? = some full :=
  .bind u.fullGrants fun full => .bind .held fun _ =>
    .given (fun _ _ h => h.2) fun hf =>
      (Keeps.exchange fun hi hf => u.restores hi hf).mono (fun _ h => h)
        fun _ _ h => ⟨_, h, full, hf, rfl⟩

theorem can (u : Upkeep contract token inv) (action objectType path definition : String) :
    Keeps contract token inv pre (Session.can action objectType path definition)
      fun answer session => session.Holding fun held => ∃ full, held.full? = some full ∧
        answer = permitted full (.of action objectType path definition) :=
  .bind u.fullGrants fun full => .pure fun _ ⟨held, hs, hf⟩ => ⟨held, hs, full, hf, rfl⟩

theorem isActive (u : Upkeep contract token inv) (action objectType path definition : String) :
    Keeps contract token inv pre (Session.isActive action objectType path definition)
      fun answer session => session.Holding fun held => ∃ active, held.active? = some active ∧
        answer = permitted active (.of action objectType path definition) :=
  .bind u.activeGrants fun active => .pure fun _ ⟨held, hs, ha⟩ => ⟨held, hs, active, ha, rfl⟩

theorem remaining (u : Upkeep contract token inv) :
    Keeps contract token inv pre Session.remaining fun _ => pre :=
  .remaining (u.sends _ nofun)

theorem setLifetime (u : Upkeep contract token inv) (seconds : UInt64) :
    Keeps contract token inv pre (Session.setLifetime seconds) fun _ session =>
      session.Holding fun _ => True :=
  .bind u.user fun _ => u.tending.expireBoth seconds

theorem refresh (u : Upkeep contract token inv) (never : Bool) :
    Keeps contract token inv pre (Session.refresh never) fun _ session =>
      session.Holding fun _ => True :=
  .bind u.user fun _ => u.tending.refreshFor never

theorem save (u : Upkeep contract token inv) (never : Bool) :
    Keeps contract token inv pre (Session.save never) fun _ session =>
      session.Holding fun _ => True := by
  refine .bind u.held fun value => ?_
  split
  · exact u.write never
  · exact u.refresh never

theorem remove (u : Upkeep contract token inv) :
    Keeps contract token inv pre Session.remove fun _ session => session.state = .removed :=
  .bind u.user fun _ => u.tending.erase

theorem intoRecord (u : Upkeep contract token inv) :
    Keeps contract token inv pre Session.intoRecord fun record session =>
      session.Holding fun held => held.record = record := by
  refine .bind u.held fun _ => .bind .get fun session => ?_
  split
  case h_1 held hs => exact .pure fun _ h => ⟨held, h.1 ▸ hs, rfl⟩
  case h_2 => exact .throw

end Upkeep
end Entitlement
