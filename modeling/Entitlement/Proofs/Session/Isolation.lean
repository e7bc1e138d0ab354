import Entitlement.Proofs.Session.Deed
import Entitlement.Proofs.Session.Key
import Entitlement.Proofs.Session.Record
import Entitlement.Proofs.Store.Effect
/-!
What a session does is about its own token and its own user. It cannot be seen from any other token
or user, unless the one is spelled as the key of the other: the records of tokens and the indices of
users lie under keys that begin alike.
-/

namespace Entitlement

-- A session does not load in `loads`, or it finds a record of this user then. It only sends commands
-- about its token and the index of the user, and only writes records of the user.
def Contract.within (token user : String) (loads : Prop) : Contract where
  sends command := (command.key = Key.record token ∨ command.key = Key.index user) ∧
    ∀ ttl data, command = .setex (Key.record token) ttl data → Record.Belongs user data
  replies
    | .get key, .ok (some data) => loads → key = Key.record token → Record.Belongs user data
    | _, _ => True

-- Nothing has changed but under the keys of a token and of the index of a user.
structure Store.Aside (start : Store) (now : Instant) (token user : String) (loads : Prop)
    (store : Store) : Prop where
  others : ∀ key, key ≠ Key.record token → key ≠ Key.index user → store.find? key = start.find? key
  stored : loads → store.Yields now (Key.record token) (Record.Belongs user)

namespace Contract

variable {token user : String} {loads : Prop} {start : Store} {now : Instant}

theorem within_upheld : (within token user loads).UpheldAt now (start.Aside now token user loads) where
  refused command error := by
    cases command <;> trivial
  served {store command} h hs := by
    constructor
    case left =>
      cases command
      case get key =>
        change (within token user loads).replies (.get key) (store.get now key)
        match hg : store.get now key with
        | .ok (some data) => exact fun hl hk => (h.stored hl).get (hk ▸ hg)
        | .ok none | .error _ => exact trivial
      all_goals trivial
    case right =>
      refine ⟨fun key hr hi => ?_, fun hl => (h.stored hl).reply hs.2⟩
      have hk : key ≠ command.key := by
        rintro rfl
        exact hs.1.elim hr hi
      rw [(store.becomes_reply now command).others key hk, h.others key hr hi]

end Contract

theorem tending_within (token user : String) (loads : Prop) :
    Tending (.within token user loads) token fun held => held.record.user.id = user where
  sends hu hc := ⟨hu ▸ hc.1, fun ttl data he => absurd he (hc.2 ttl data)⟩
  writes := by
    rintro held hu ttl
    refine ⟨.inl rfl, ?_⟩
    rintro _ _ ⟨⟩
    exact hu ▸ Record.belongs_encode held.record
  saves hu := hu

theorem keeps_load_within {loads : Prop} (hl : loads) :
    Keeps (.within token user loads) token (fun held => held.record.user.id = user) (fun _ => True)
      Session.load fun _ _ => True := by
  have hg : (Contract.within token user loads).sends (.get (Key.record token)) :=
    ⟨.inl rfl, nofun⟩
  refine ((tending_within token user loads).load hg ?_).mono (fun _ h => h) fun _ _ _ => trivial
  intro bytes record hr hd
  have hb : Record.Belongs user bytes := hr hl rfl
  exact hb record hd

namespace World

variable {world : World} {deed : Deed} {token user : String} {now : Instant}

theorem aside_of_worker (refuse : Script.Refusal)
    (hw : ∀ worker, world.Worker deed worker →
      worker.Sane token fun held => held.record.user.id = user)
    (hs : ∀ worker, world.Worker deed worker → deed.Uses worker .load →
      world.cache.Yields now (Key.record token) (Record.Belongs user)) :
    world.cache.Aside now token user False (world.after deed refuse now).cache := by
  have others {loads : Prop} {store : Store} (h : world.cache.Aside now token user loads store) :
      world.cache.Aside now token user False store := ⟨h.others, False.elim⟩
  cases world.course deed refuse now
  case inl hi => exact ⟨fun key _ _ => by rw [after, hi.store], False.elim⟩
  case inr hd =>
    obtain ⟨worker, last, hd⟩ := hd
    have t := tending_within token user (deed.Uses worker .load)
    have hu : world.cache.Aside now token user (deed.Uses worker .load) world.cache :=
      ⟨fun _ _ _ => rfl, hs worker hd.begins⟩
    have hl := hd.steps.sane t Contract.within_upheld ⟨.inl rfl, by simp⟩ keeps_load_within
      (fun _ _ hr hu => hr.user.trans hu) (hw worker hd.begins) hu
    exact others hl.2

end World

-- Looking only at what lies under one key.
def Contract.reading (key : String) : Contract where
  sends command := command = .get key ∨ command = .ttl key ∨ command = .lrange key
  replies _ _ := True

namespace Directory

theorem meets_lookup (token : String) :
    (lookup token false).Meets (.reading (Key.record token)) fun _ => True := by
  have hl : Keeps (.reading (Key.record token)) token (fun _ => True) (·.refreshOnLoad = false)
      Session.load fun _ session => session.Holding fun held => held.modified = false := by
    refine .load (.inl rfl) (fun _ _ => trivial) fun session _ hf hr => ?_
    exact absurd hr (Bool.eq_false_iff.mp hf)
  have he := Keeps.entry hl (.inr (.inl rfl)) (.visitor token false) ⟨rfl, fun _ _ => trivial⟩ rfl
  rw [lookup, Session.create_of_connected rfl]
  exact Script.meets_bind.mpr (Script.Meets.mono he fun _ _ => trivial)

theorem meets_tokensOf (user : String) :
    Script.Meets (.reading (Key.index user)) (fun _ => True) (tokensOf user) := by
  refine ⟨.inr (.inr rfl), fun reply _ => ?_⟩
  cases reply <;> trivial

end Directory

-- Who only looks at one key comes to the same result if the same lies there.
theorem Script.Meets.congr_of_reading {script : Script α}
    (hm : script.Meets (.reading key) fun _ => True) {store other : Store}
    (h : store.find? key = other.find? key) (refuse : Refusal) (now : Instant)
    (sent : List Command) :
    (script.run refuse now sent store).value = (script.run refuse now sent other).value := by
  let alike (store other : Store) : Prop := store.live? now key = other.live? now key
  have ha {store other : Store} {command : Command} (hs : alike store other)
      (hc : (Contract.reading key).sends command) :
      (store.reply now command).1 = (other.reply now command).1 ∧
        alike (store.reply now command).2 (other.reply now command).2 := by
    obtain rfl | rfl | rfl := hc
    all_goals exact ⟨Store.reply_congr hs nofun, hs⟩
  have hs : alike store other := by
    dsimp only [alike]
    rw [Store.live?, h, Store.live?]
  exact hm.run_congr (fun _ _ => trivial) ha hs refuse sent

-- To anyone else, who asks about another token or another user, it is as if nothing had been done.
structure World.Isolated (world : World) (token user : String) (after : World) : Prop where
  tokens : ∀ other, other ≠ token → other ≠ "index:" ++ user → ∀ refuse now sent,
    ((Directory.lookup other false).run refuse now sent after.cache).value =
      ((Directory.lookup other false).run refuse now sent world.cache).value
  users : ∀ other, other ≠ user → token ≠ "index:" ++ other → ∀ refuse now sent,
    (Script.run refuse now (Directory.tokensOf other) sent after.cache).value =
      (Script.run refuse now (Directory.tokensOf other) sent world.cache).value

theorem isolated_of_worker (world : World) (deed : Deed) (refuse : Script.Refusal) (now : Instant)
    (hw : ∀ worker, world.Worker deed worker →
      worker.Sane token fun held => held.record.user.id = user)
    (hs : ∀ worker, world.Worker deed worker → deed.Uses worker .load →
      world.cache.Yields now (Key.record token) (Record.Belongs user)) :
    world.Isolated token user (world.after deed refuse now) := by
  have ha := World.aside_of_worker refuse hw hs
  constructor
  case tokens =>
    intro other ht hi refuse now sent
    refine (Directory.meets_lookup other).congr_of_reading (ha.others _ ?_ ?_) refuse now sent
    · exact fun he => ht (Key.record_inj.mp he)
    · exact fun he => hi (Key.record_eq_index.mp he)
  case users =>
    intro other hu hi refuse now sent
    refine (Directory.meets_tokensOf other).congr_of_reading (ha.others _ ?_ ?_) refuse now sent
    · exact fun he => hi (Key.record_eq_index.mp he.symm)
    · exact fun he => hu (Key.index_inj.mp he)

-- A session ends its identity, and the index of another user stays as it was.
theorem isolated_from_expiry :
    let record := Record.create "u" []
    let session : Session := ⟨"t", 3600, true, .held (.of record false)⟩
    let slot : Store.Slot := ⟨.list ["s"], none⟩
    let world : World := ⟨.ofList [(Key.index "v", slot), (Key.index "u", slot)], [session]⟩
    let after := world.after (.operate 0 (.setLifetime 0)) .none 0
    world.Isolated "t" "u" after ∧
      (Script.run .none 0 (Directory.tokensOf "u") [] after.cache).value = .ok [] ∧
      (Script.run .none 0 (Directory.tokensOf "v") [] after.cache).value = .ok ["s"] := by
  intro record session slot world after
  refine ⟨isolated_of_worker world _ _ _ ?_ ?_, by decide +kernel, by decide +kernel⟩
  · rintro worker (_ | _ | _ | h)
    cases Option.some.inj h
    refine ⟨rfl, ?_⟩
    rintro _ ⟨⟩
    rfl
  · rintro worker (_ | _ | _ | h) hu
    cases Option.some.inj h
    cases hu
    case begin hs _ => exact nomatch hs
    case operate hp => exact nomatch hp

-- A token that is spelled as the key of an index takes the place of that index.
theorem index_lost_to_token :
    let slot : Store.Slot := ⟨.list ["t"], none⟩
    let world : World := ⟨.ofList [(Key.index "bob", slot)], []⟩
    let deed : Deed := .establish "index:bob" (.create "eve" []) { connected := true }
    let after := world.after deed .none 0
    "eve" ≠ "bob" ∧
      (Script.run .none 0 (Directory.tokensOf "bob") [] world.cache).value = .ok ["t"] ∧
      (Script.run .none 0 (Directory.tokensOf "bob") [] after.cache).value =
        .error (.store "lrange" (.wrongType "identity:index:bob" "list")) := by
  decide +kernel

end Entitlement
