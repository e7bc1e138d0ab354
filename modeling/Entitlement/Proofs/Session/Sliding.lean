import Entitlement.Proofs.Session.Reopening
import Entitlement.Proofs.Session.Survival
import Entitlement.Proofs.Store.Deadline
/-!
How long an identity lasts that is opened again and again. Each opening gives it its whole lifetime
anew, as long as it comes before the last one is over; the first one that comes too late finds
nothing, and nothing is found any more after it.
-/

namespace Entitlement

namespace Store

variable {store : Store} {now later due time : Instant} {key : String} {data : ByteArray}

-- The bytes under a key can be read before an instant, and nothing can from then on.
def Until (store : Store) (now : Instant) (key : String) (data : ByteArray) (due : Instant) : Prop :=
  ∀ later, now ≤ later → store.get later key = .ok (if later < due then some data else none)

namespace Until

theorem wait (h : store.Until now key data due) (hn : now ≤ later) :
    store.Until later key data due :=
  fun _ hl => h _ (UInt64.le_trans hn hl)

theorem call {call : Call} (h : store.Until now key data due) (hs : call.Spares key) :
    (Store.call store time call).2.Until now key data due := by
  intro later hl
  rw [get, live?_congr (find?_call_of_spares hs), ← get, h later hl]

theorem of_live? (h : store.live? now key = some ⟨.bytes data, some due⟩) :
    store.Until now key data due := by
  intro later hl
  rw [get, live?_later hl, h]
  by_cases hd : later < due
  all_goals simp [Option.filter, Slot.isExpired, hd]

end Until
end Store

namespace Session

variable {token user : String} {grants : List Grant} {config : Config} {record : Record}
  {data : ByteArray} {now last due : Instant} {cache : Store} {session : Session}

-- What happens to an identity: it is opened, or a call is made that may be about anything else.
inductive Visit where
  | opening
  | call (call : Call)

structure Opening where
  now : Instant
  result : Except AccessError Session

namespace Opening

def succeeds (opening : Opening) : Bool :=
  opening.result.isOk

-- The time of the last success, if there was one after the start.
def latest (start : Instant) : List Opening → Instant
  | [] => start
  | opening :: openings => latest (if opening.succeeds then opening.now else start) openings

end Opening

-- All openings among visits, one after another, with what comes of them.
def openings (token : String) (config : Config) : Store → List (Instant × Visit) → List Opening
  | _, [] => []
  | cache, (now, .opening) :: visits =>
    let outcome := (start token config).run .none now [] cache
    ⟨now, outcome.value⟩ :: openings token config outcome.store visits
  | cache, (now, .call call) :: visits =>
    openings token config (Store.call cache now call).2 visits

-- Time goes on from visit to visit, no lifetime reaches its end, and no call is about the record.
structure Orderly (token : String) (config : Config) (start : Instant)
    (visits : List (Instant × Visit)) : Prop where
  ordered : (start :: visits.map Prod.fst).Pairwise (· ≤ ·)
  spared : ∀ now call, (now, .call call) ∈ visits → call.Spares (Key.record token)
  bounded : ∀ now, (now, .opening) ∈ visits →
    now.toNat + 1000 * config.lifetime.toNat < UInt64.size

variable {visits : List (Instant × Visit)} {visit : Instant × Visit} {opening : Opening}
  {before after : List Opening}

theorem Orderly.head (h : Orderly token config now (visit :: visits)) : now ≤ visit.1 :=
  (List.pairwise_cons.mp h.ordered).1 _ List.mem_cons_self

theorem Orderly.tail (h : Orderly token config now (visit :: visits)) :
    Orderly token config visit.1 visits where
  ordered := (List.pairwise_cons.mp h.ordered).2
  spared now call hm := h.spared now call (.tail _ hm)
  bounded now hm := h.bounded now (.tail _ hm)

-- An identity that is opened in time begins its lifetime anew.
theorem run_start_in_time (hc : config.connected = true) (hr : config.settings.refreshOnLoad = true)
    (hb : now.toNat + 1000 * config.lifetime.toNat < UInt64.size)
    (hd : Record.decode? data = some record)
    (hu : cache.Until now (Key.record token) data due) (hn : now < due) :
    let outcome := (start token config).run .none now [] cache
    outcome.value = .ok { fresh token config with state := .held (.of record false) } ∧
      outcome.store.Until now (Key.record token) data (Store.deadline now config.lifetime) := by
  have hg : cache.get now (Key.record token) = .ok (some data) := by
    rw [hu now (UInt64.le_refl now), if_pos hn]
  have hf : (fresh token config).found now cache = .ok record := by
    rw [found_of_get hg, hd]
    rfl
  have hs : (fresh token config).state ≠ .removed := nofun
  rw [start_of_connected hc, run_launch, outcome_load hs, hf]
  obtain ⟨deadline?, hl⟩ := Store.live?_of_get hg
  have ha : (fresh token config).arriving record.user.id =
      (fresh token config).refreshing record.user.id false := if_pos hr
  have hw : _ = (cache.live? now (Key.record token)).map _ :=
    (fresh token config).live?_refreshing cache config.lifetime_ne_zero
      (Instant.lt_last_of_lt hb config.lifetime_ne_zero) record.user.id false
  rw [hl, ← ha] at hw
  exact ⟨rfl, .of_live? hw⟩

-- One that is opened too late is not there any more.
theorem run_start_too_late (hc : config.connected = true)
    (hu : cache.Until now (Key.record token) data due) (hn : due ≤ now) :
    let outcome := (start token config).run .none now [] cache
    outcome.value = .error (.unknownIdentity token) ∧ outcome.store = cache := by
  have hg : cache.get now (Key.record token) = .ok none := by
    rw [hu now (UInt64.le_refl now), if_neg (UInt64.not_lt.mpr hn)]
  have hf : (fresh token config).found now cache = .error (.unknownIdentity token) :=
    found_of_get_none hg
  have hs : (fresh token config).state ≠ .removed := nofun
  rw [start_of_connected hc, run_launch, outcome_load hs, hf]
  exact ⟨rfl, rfl⟩

-- Once it was too late, it is too late for all openings.
theorem failed_of_over (hc : config.connected = true)
    (hu : cache.Until now (Key.record token) data due) (hd : due ≤ now)
    (hv : Orderly token config now visits) (ho : opening ∈ openings token config cache visits) :
    opening.succeeds = false := by
  induction visits generalizing cache now
  case nil => exact nomatch ho
  case cons visit visits hi =>
    have hu := hu.wait hv.head
    have hd : due ≤ visit.1 := UInt64.le_trans hd hv.head
    obtain ⟨time, _ | call⟩ := visit
    case opening =>
      have ⟨hr, hs⟩ := run_start_too_late hc hu hd
      rw [openings, hr, hs] at ho
      obtain rfl | ho := List.mem_cons.mp ho
      · rfl
      · exact hi hu hd hv.tail ho
    case call =>
      exact hi (hu.call (hv.spared time call (.head _))) hd hv.tail ho

-- An opening looks at nothing but the bytes of the record, and these are there until the lifetime since
-- the last success is over.
theorem succeeds_iff (hc : config.connected = true) (hr : config.settings.refreshOnLoad = true)
    (hd : Record.decode? data = some record)
    (hb : last.toNat + 1000 * config.lifetime.toNat < UInt64.size)
    (hu : cache.Until now (Key.record token) data (Store.deadline last config.lifetime))
    (hv : Orderly token config now visits)
    (ho : openings token config cache visits = before ++ opening :: after) :
    opening.succeeds ↔ (∀ other ∈ before, other.succeeds) ∧
      opening.now.toNat < (Opening.latest last before).toNat + 1000 * config.lifetime.toNat := by
  induction visits generalizing cache now last before
  case nil => simp [openings] at ho
  case cons visit visits hi =>
    have hu := hu.wait hv.head
    obtain ⟨time, _ | call⟩ := visit
    case call =>
      exact hi hb (hu.call (hv.spared time call (.head _))) hv.tail ho
    case opening =>
      have hl : time < Store.deadline last config.lifetime ↔
          time.toNat < last.toNat + 1000 * config.lifetime.toNat := by
        rw [UInt64.lt_iff_toNat_lt, Store.toNat_deadline_of_lt hb]
      rw [openings] at ho
      by_cases ht : time < Store.deadline last config.lifetime
      case pos =>
        have hn : time.toNat + 1000 * config.lifetime.toNat < UInt64.size :=
          hv.bounded time (.head _)
        have ⟨hs, hu⟩ := run_start_in_time hc hr hn hd hu ht
        rw [hs] at ho
        cases before
        case nil =>
          obtain ⟨rfl, _⟩ := List.cons.inj ho
          exact iff_of_true rfl ⟨List.forall_mem_nil _, hl.mp ht⟩
        case cons first before =>
          obtain ⟨rfl, ha⟩ := List.cons.inj ho
          rw [hi hn hu hv.tail ha, List.forall_mem_cons]
          exact and_congr_left' (and_iff_right rfl).symm
      case neg =>
        have hg : Store.deadline last config.lifetime ≤ time := UInt64.not_lt.mp ht
        have ⟨hs, hk⟩ := run_start_too_late hc hu hg
        rw [hs, hk] at ho
        cases before
        case nil =>
          obtain ⟨rfl, _⟩ := List.cons.inj ho
          exact iff_of_false nofun fun h => ht (hl.mpr h.2)
        case cons first before =>
          -- the first opening was too late already, and so are all that follow it
          obtain ⟨rfl, ha⟩ := List.cons.inj ho
          have hm : opening ∈ openings token config cache visits :=
            ha ▸ List.mem_append_right _ (.head _)
          have hf : opening.succeeds = false := failed_of_over hc hu hg hv.tail hm
          exact iff_of_false (Bool.eq_false_iff.mp hf) fun h => nomatch h.1 _ (.head _)

-- What was put into the cache is there for the lifetime that it was given.
theorem until_of_established (hn : config.settings.neverExpires = false)
    (hs : ((establish token record config).run .none now [] cache).value = .ok session) :
    ((establish token record config).run .none now [] cache).store.Until now (Key.record token)
      (Held.of { record with uid := token } true).record.encode
      (Store.deadline now config.lifetime) := by
  have ⟨hc, hw⟩ := written_of_established hs
  rw [establish_of_connected hc, run_launch, hn]
  rw [hn] at hw
  exact fun later hl => get_of_written rfl config.lifetime_ne_zero (congrArg Prod.fst hw) hl

-- An identity without attached fields that was put into the cache is opened whenever someone asks for
-- it, until it has not been opened for its whole lifetime, to the millisecond. From then on it cannot
-- be opened.
theorem opened_while_tended (hr : config.settings.refreshOnLoad = true)
    (hn : config.settings.neverExpires = false)
    (hb : now.toNat + 1000 * config.lifetime.toNat < UInt64.size)
    (hs : ((establish token (.create user grants) config).run .none now [] cache).value = .ok session)
    (hv : Orderly token config now visits) :
    let written := ((establish token (.create user grants) config).run .none now [] cache).store
    ∀ before opening after, openings token config written visits = before ++ opening :: after →
      (opening.succeeds ↔ (∀ other ∈ before, other.succeeds) ∧
        opening.now.toNat < (Opening.latest now before).toNat + 1000 * config.lifetime.toNat) := by
  intro written before opening after ho
  have hd : Record.decode? (Record.issued token user grants []).encode =
      some (.issued token user grants []) := by
    rw [Record.decode?_encode_issued (List.forall_mem_nil _), if_neg (by simp [Record.Clashes])]
  have hu : written.Until now (Key.record token) (Record.issued token user grants []).encode
      (Store.deadline now config.lifetime) := until_of_established hn hs
  exact succeeds_iff (written_of_established hs).1 hr hd hb hu hv ho

-- With a lifetime of ten seconds an identity is opened three times just before it is over, while other
-- keys are written to. Then it is opened at the very millisecond at which it is over, and once more.
theorem opened_until_over :
    let config : Config := { connected := true, settings := { lifetime := 10 } }
    let visits : List (Instant × Visit) := [
      (10999, .opening), (10999, .call (.command (.delete (Key.index "bob")))), (20998, .opening),
      (20999, .call (.command (.setex "other" 1 .empty))), (20999, .opening), (30999, .opening),
      (30999, .opening)]
    let established := (establish "t" (.create "bob" []) config).run .none 1000 [] .empty
    (openings "t" config established.store visits).map (fun opening => (opening.now, opening.succeeds)) =
        [(10999, true), (20998, true), (20999, true), (30999, false), (30999, false)] ∧
      ∀ before opening after,
        openings "t" config established.store visits = before ++ opening :: after →
          (opening.succeeds ↔ (∀ other ∈ before, other.succeeds) ∧
            opening.now.toNat < (Opening.latest 1000 before).toNat + 1000 * config.lifetime.toNat) := by
  intro config visits established
  have hs : established.value.toOption.isSome := by decide +kernel
  have ⟨session, hs⟩ := Option.isSome_iff_exists.mp hs
  have hs : established.value = .ok session := World.mem_toList (Option.mem_toList.mpr hs)
  have hv : Orderly "t" config 1000 visits := by
    refine ⟨by decide, fun now call hm => ?spared, fun now hm => ?bounded⟩
    case spared =>
      simp only [visits, List.mem_cons, Prod.mk.injEq, reduceCtorEq, and_false, false_or, or_false,
        Visit.call.injEq, List.not_mem_nil] at hm
      obtain ⟨_, rfl⟩ | ⟨_, rfl⟩ := hm
      · exact (by decide : Key.index "bob" ≠ Key.record "t")
      · exact (by decide : "other" ≠ Key.record "t")
    case bounded =>
      simp only [visits, List.mem_cons, Prod.mk.injEq, reduceCtorEq, and_false, and_true, false_or,
        or_false, List.not_mem_nil] at hm
      obtain rfl | rfl | rfl | rfl | rfl := hm
      all_goals decide
  refine ⟨by decide +kernel, ?_⟩
  exact opened_while_tended rfl rfl (by decide) hs hv

end Session
end Entitlement
