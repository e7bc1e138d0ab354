import Entitlement.Proofs.Session.Deed
import Entitlement.Proofs.Session.Endless
/-!
An identity that was put into the cache can be opened for as long as it lasts, and it is the one
that was put there. This is so unless a field was attached to it under the name of a declared one:
such an identity is written like any other, and cannot be opened at all.
-/

namespace Entitlement

-- What is written at one time is there at another one. It is not over as soon as it is written, and
-- its deadline is still to come, unless it has none.
structure Config.Lasts (config : Config) (now later : Instant) : Prop where
  begins : now < Instant.last
  ahead : config.settings.neverExpires = true ∨ later < Store.deadline now config.lifetime

-- Some field has the name of a declared one.
def Record.Clashes (fields : List (String × Json)) : Prop :=
  ∃ name ∈ ownNames, name ∈ fields.map Prod.fst

instance (fields : List (String × Json)) : Decidable (Record.Clashes fields) :=
  inferInstanceAs (Decidable (∃ name ∈ Record.ownNames, name ∈ fields.map Prod.fst))

-- The record of a user with attached fields once it was put under a token. The list of grants is
-- the full one as well, and of the fields of one name the last one is kept.
def Record.issued (token user : String) (grants : List Grant) (fields : List (String × Json)) :
    Record where
  uid := token
  user := (create user grants).user
  full? := some (create user grants).user.perms
  extra := Fields.ofList fields

-- The record that a session gives when it is asked for it, whatever has become of the cache.
def Session.Shows (session : Session) (record : Record) : Prop :=
  ∀ refuse now sent cache,
    (Session.outcome Session.record session refuse now sent cache).value.1 = .ok record

variable {token user : String} {grants : List Grant} {fields : List (String × Json)}
  {config : Config} {record : Record} {now later : Instant} {cache : Store}

namespace Record

theorem issued_eq (token user : String) (grants : List Grant) (fields : List (String × Json)) :
    (Held.of { (create user grants).attach fields with uid := token } true).record =
      issued token user grants fields := by
  rw [attach_create]
  rfl

theorem decode?_encode_issued (hr : ∀ field ∈ fields, field.2.Returns (Json.maxDepth - 1)) :
    decode? (issued token user grants fields).encode =
      if Clashes fields then none else some (issued token user grants fields) := by
  split
  case isTrue hc =>
    have ⟨name, hn, hx⟩ := hc
    exact decode?_encode_eq_none rfl hn (Fields.mem_names_ofList.mpr hx)
  case isFalse hc =>
    refine Sound.decode?_encode ⟨kept_nil _ _, kept_ofList (fun name hn hx => ?_) hr⟩
    exact hc ⟨name, hn, hx⟩

end Record

namespace Session

variable {session : Session}

-- A record in memory is given as it is.
theorem shows_held (session : Session) (held : Held) :
    Shows { session with state := .held held } held.record := by
  intro refuse now sent cache
  rw [Session.record, outcome, perform_bind, perform_held rfl, pure_bind]
  rfl

-- A session is opened on whatever is found under its token.
theorem value_start (hc : config.connected = true) :
    ((start token config).run .none now [] cache).value =
      ((fresh token config).found now cache).map fun record =>
        { fresh token config with state := .held (.of record false) } := by
  have hs : (fresh token config).state ≠ .removed := by rintro ⟨⟩
  rw [start_of_connected hc, run_launch, outcome_load hs]
  cases (fresh token config).found now cache <;> rfl

theorem found_of_get {data : ByteArray}
    (hg : cache.get now (Key.record session.token) = .ok (some data)) :
    session.found now cache =
      (Record.decode? data).elim (.error (.malformedIdentity session.token malformed)) .ok := by
  simp only [found, hg]
  cases Record.decode? data <;> rfl

theorem found_of_get_none (hg : cache.get now (Key.record session.token) = .ok none) :
    session.found now cache = .error (.unknownIdentity session.token) := by
  simp only [found, hg]

-- The bytes that were written are there as long as the record lasts.
theorem get_writing {never : Bool} (hn : now < Instant.last) (hz : session.lifetime ≠ 0)
    (hk : Key.index record.user.id ≠ Key.record session.token)
    (ha : never = true ∨ later < Store.deadline now session.lifetime) :
    (cache.serve now (writing session record never)).get later (Key.record session.token) =
      .ok (some record.encode) := by
  rw [Store.get, Store.live?, find?_writing hn hz hk]
  cases never
  case true => rfl
  case false =>
    have hl : ¬Store.deadline now session.lifetime ≤ later :=
      UInt64.not_le.mpr (ha.resolve_left Bool.false_ne_true)
    simp [Option.filter, Store.Slot.isExpired, hl]

-- Who has put a record into the cache holds it, and its bytes are there.
theorem get_of_established (hl : config.Lasts now later)
    (h : ((establish token record config).run .none now [] cache).value = .ok session) :
    let held := (Held.of { record with uid := token } true).record
    session.Shows held ∧
      ((establish token record config).run .none now [] cache).store.get later
        (Key.record token) = .ok (some held.encode) := by
  intro held
  have ⟨hc, hv⟩ := written_of_established h
  have ha := congrArg Prod.fst hv
  have ⟨hk, hi⟩ := index_of_written rfl hl.begins config.lifetime_ne_zero ha
  rw [establish_of_connected hc, run_launch]
  rw [outcome_write rfl hk hi] at hv ⊢
  cases hv
  exact ⟨shows_held (fresh token config) { Held.of _ true with modified := false },
    get_writing hl.begins config.lifetime_ne_zero hk hl.ahead⟩

-- Whatever was put into the cache can be opened for as long as it lasts, if no attached field has the
-- name of a declared one, and then the same record is found. Otherwise it cannot be opened at all.
theorem opened_unless_clashing (hd : depth < Json.maxDepth)
    (hr : ∀ field ∈ fields, field.2.Regular depth) (hl : config.Lasts now later)
    (h : ((establish token ((Record.create user grants).attach fields) config).run .none now []
      cache).value = .ok session) :
    let written := ((establish token ((Record.create user grants).attach fields) config).run .none
      now [] cache).store
    let opened := ((start token config).run .none later [] written).value
    session.Shows (.issued token user grants fields) ∧
      (Record.Clashes fields → opened = .error (.malformedIdentity token malformed)) ∧
      (¬Record.Clashes fields → ∃ other, opened = .ok other ∧
        other.Shows (.issued token user grants fields)) := by
  intro written opened
  have ⟨hs, hg⟩ := get_of_established hl h
  rw [Record.issued_eq] at hs hg
  have hc := (written_of_established h).1
  have hr : ∀ field ∈ fields, field.2.Returns (Json.maxDepth - 1) :=
    fun field hm => ((hr field hm).mono (Nat.le_sub_one_of_lt hd)).returns
  have ho : opened = _ := value_start hc
  have hf : (fresh token config).found later written =
      (Record.decode? (Record.issued token user grants fields).encode).elim
        (.error (.malformedIdentity token malformed)) .ok := found_of_get hg
  rw [hf, Record.decode?_encode_issued hr] at ho
  refine ⟨hs, fun hn => ?clashing, fun hn => ?apart⟩
  case clashing =>
    rw [if_pos hn] at ho
    exact ho
  case apart =>
    rw [if_neg hn] at ho
    exact ⟨_, ho, shows_held (fresh token config) (.of _ false)⟩

-- Containers of both kinds inside each other.
def nestedValue : Json :=
  .array [.null, .object [("a", .array []), ("é", .ofInt (-1) (by decide))]]

theorem regular_nestedValue : nestedValue.Regular 3 := by
  have ha : Fields.Ascending [("a", Json.array []), ("é", Json.ofInt (-1) (by decide))] :=
    List.pairwise_pair.mpr (by decide)
  have ho : Json.Regular 2 (.object [("a", .array []), ("é", .ofInt (-1) (by decide))]) :=
    .object ha (by simpa using ⟨.array (List.forall_mem_nil _), .integer⟩)
  exact .array (by simpa using ⟨.null, ho⟩)

-- One of the fields is replaced, and the identity is opened at the last instant at which it is there.
theorem opened_with_nested :
    let fields : List (String × Json) :=
      [("ip", .string "10.0.0.1"), ("keys", nestedValue), ("ip", .bool true)]
    let config : Config := { connected := true, settings := { lifetime := 10 } }
    let established := (establish "t" ((Record.create "bob" []).attach fields) config).run .none 500
      [] .empty
    (∀ field ∈ fields, field.2.Regular 3) ∧ config.Lasts 500 10499 ∧ ¬Record.Clashes fields ∧
      ∃ session other, established.value = .ok session ∧
        ((start "t" config).run .none 10499 [] established.store).value = .ok other ∧
          session.Shows (.issued "t" "bob" [] fields) ∧
            other.Shows (.issued "t" "bob" [] fields) := by
  intro fields config established
  have hr : ∀ field ∈ fields, field.2.Regular 3 := by
    simpa [fields] using ⟨.string, regular_nestedValue, .bool⟩
  have hl : config.Lasts 500 10499 := ⟨by decide, .inr (by decide)⟩
  have hn : ¬Record.Clashes fields := by decide
  have hs : established.value.toOption.isSome := by decide +kernel
  have ⟨session, hs⟩ := Option.isSome_iff_exists.mp hs
  have hs : established.value = .ok session := World.mem_toList (Option.mem_toList.mpr hs)
  have ⟨ha, _, hx⟩ := opened_unless_clashing (by decide) hr hl hs
  have ⟨other, ho, hb⟩ := hx hn
  exact ⟨hr, hl, hn, session, other, hs, ho, ha, hb⟩

-- Under each of the declared names an identity is put into the cache that cannot be opened.
theorem unopened_when_clashing :
    let config : Config := { connected := true }
    ∀ name ∈ Record.ownNames,
      let record := (Record.create "bob" []).attach [(name, .string "x")]
      let established := (establish "t" record config).run .none 0 [] .empty
      established.value.map Session.token = .ok "t" ∧ config.Lasts 0 0 ∧
        ((start "t" config).run .none 0 [] established.store).value.map Session.token =
          .error (.malformedIdentity "t" malformed) := by
  intro config name hn
  have hl : config.Lasts 0 0 := ⟨by decide, .inr (by decide)⟩
  simp only [Record.ownNames, List.mem_cons, List.not_mem_nil, or_false] at hn
  obtain rfl | rfl | rfl := hn
  all_goals
    intro record established
    exact ⟨by decide +kernel, hl, by decide +kernel⟩

end Session
end Entitlement
