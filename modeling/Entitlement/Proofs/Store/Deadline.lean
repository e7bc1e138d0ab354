import Entitlement.Proofs.Store.Trace
import Mathlib.Algebra.Order.Floor.Div
/-!
How long a key stays after it was given a time to live, and how much of that time is said to be left.
Instants and seconds are words: sums and products that are too large come to the last word, and a
difference is taken only where it cannot go below zero.
-/

namespace Entitlement

-- Whether a call leaves a key alone: it is about another key, or about all keys there are.
def Call.Spares (key : String) : Call → Prop
  | .command (.keys _) | .size => True
  | .command c => c.key ≠ key

namespace Store

variable {store : Store} {now later : Instant} {key : String} {seconds : UInt64} {command : Command}
  {value : Value} {call : Call} {calls : List (Instant × Call)}

theorem find?_call_of_spares (h : call.Spares key) :
    (store.call now call).2.find? key = store.find? key := by
  cases call
  case size => rfl
  case command command =>
    cases command
    case keys => rfl
    all_goals exact (store.becomes_reply now _).others key (Ne.symm h)

theorem find?_trace_of_spares (h : ∀ timed ∈ calls, timed.2.Spares key) :
    (Store.call.trace store calls).2.find? key = store.find? key := by
  induction calls generalizing store
  case nil => rfl
  case cons timed calls hi =>
    have ⟨hf, hr⟩ := List.forall_mem_cons.mp h
    exact (hi hr).trans (find?_call_of_spares hf)

-- A command that gives a key a time to live, and the value that is under the key from then on.
inductive Allots (store : Store) (now : Instant) (key : String) (seconds : UInt64) :
    Command → Value → Prop
  | setex (data : ByteArray) : Allots store now key seconds (.setex key seconds data) (.bytes data)
  | expire {slot : Slot} (hl : store.live? now key = some slot) (hs : seconds ≠ 0) :
    Allots store now key seconds (.expire key seconds) slot.value

theorem Allots.live? (h : store.Allots now key seconds command value) (hn : now ≤ later) :
    (store.reply now command).2.live? later key =
      (some ⟨value, some (deadline now seconds)⟩ : Option Slot).filter (!·.isExpired later) := by
  rw [live?_later hn, live?_reply]
  cases h
  all_goals rw [passed, Command.key, if_pos rfl, filter_later _ hn]
  case setex data => rfl
  case expire slot hl hs => rw [Command.effect, if_neg hs, hl, Option.map_some]

-- What is left of a key as long as it is spared.
theorem Allots.live?_trace (h : store.Allots now key seconds command value)
    (hc : ∀ timed ∈ calls, timed.2.Spares key) (hn : now ≤ later) :
    (Store.call.trace (store.reply now command).2 calls).2.live? later key =
      if later < deadline now seconds then some ⟨value, some (deadline now seconds)⟩ else none := by
  rw [live?_congr (find?_trace_of_spares hc), h.live? hn]
  by_cases hd : deadline now seconds ≤ later
  all_goals simp [Option.filter, Slot.isExpired, ← UInt64.not_le, hd]

theorem mem_keys_all : key ∈ store.keys now "" ↔ (store.live? now key).isSome := by
  rw [keys_all, ← find?_live, Option.isSome_iff_ne_none, ne_eq, Fields.find?_eq_none, not_not]

-- A sum and a product that stop at the last word, and seconds of which a begun one counts in full.

def saturatingAdd (a b : UInt64) : UInt64 :=
  .ofNat (min (a.toNat + b.toNat) (UInt64.size - 1))

def saturatingMul (a b : UInt64) : UInt64 :=
  .ofNat (min (a.toNat * b.toNat) (UInt64.size - 1))

def begunSeconds (millis : UInt64) : UInt64 :=
  if millis % 1000 = 0 then millis / 1000 else millis / 1000 + 1

-- Where the product stops, the sum does so as well.
theorem deadline_eq (now : Instant) (seconds : UInt64) :
    deadline now seconds = saturatingAdd now (saturatingMul seconds 1000) := by
  have hm : (saturatingMul seconds 1000).toNat = min (seconds.toNat * 1000) (UInt64.size - 1) :=
    UInt64.toNat_ofNat_of_lt' (Nat.lt_of_le_of_lt (Nat.min_le_right ..) (by decide))
  rw [deadline, saturatingAdd, hm]
  congr 1
  omega

theorem toNat_begunSeconds (millis : UInt64) :
    (begunSeconds millis).toNat = millis.toNat ⌈/⌉ 1000 := by
  have hl : millis.toNat < 2 ^ 64 := millis.toNat_lt
  have hr : millis % 1000 = 0 ↔ millis.toNat % 1000 = 0 := UInt64.toNat_inj.symm
  rw [Nat.ceilDiv_eq_add_pred_div, begunSeconds]
  split
  case isTrue h =>
    rw [hr] at h
    simp only [UInt64.toNat_div, UInt64.reduceToNat]
    omega
  case isFalse h =>
    rw [hr] at h
    simp only [UInt64.toNat_add, UInt64.toNat_div, UInt64.reduceToNat]
    omega

-- As long as the deadline is not over, nothing goes below zero.
theorem secondsUntil_eq {due : Instant} (h : now ≤ due) :
    secondsUntil now due = begunSeconds (due - now) := by
  rw [← UInt64.toNat_inj, toNat_begunSeconds, UInt64.toNat_sub_of_le _ _ h,
    Nat.ceilDiv_eq_add_pred_div]
  have hl : due.toNat < UInt64.size := due.toNat_lt
  exact UInt64.toNat_ofNat_of_lt' (by omega)

-- The seconds that are left are few enough to be no negative number when they are read as one that
-- has a sign.
theorem toInt_begunSeconds (millis : UInt64) :
    (begunSeconds millis).toInt64.toInt = (millis.toNat ⌈/⌉ 1000 : Nat) := by
  have hl : millis.toNat < 2 ^ 64 := millis.toNat_lt
  have hb : millis.toNat ⌈/⌉ 1000 < 2 ^ 63 := by
    rw [Nat.ceilDiv_eq_add_pred_div]
    omega
  have hw : begunSeconds millis = .ofNat (millis.toNat ⌈/⌉ 1000) := by
    rw [← toNat_begunSeconds, UInt64.ofNat_toNat]
  rw [hw, UInt64.toInt64_ofNat', Int64.toInt_ofNat_of_lt hb]

theorem code_ttl_of_live? {due : Instant} (h : store.live? now key = some ⟨value, some due⟩)
    (hn : now ≤ due) : (store.ttl now key).code = (begunSeconds (due - now)).toInt64 := by
  rw [ttl, h, ← secondsUntil_eq hn, Lifetime.code]

-- At least one second is left before a deadline, and never more than there were to begin with.
theorem left_mem_Icc (hn : now ≤ later) (hd : later < deadline now seconds) :
    (deadline now seconds - later).toNat ⌈/⌉ 1000 ∈ Set.Icc 1 seconds.toNat := by
  have hb : now.toNat ≤ later.toNat := UInt64.le_iff_toNat_le.mp hn
  have hl : later.toNat < (deadline now seconds).toNat := UInt64.lt_iff_toNat_lt.mp hd
  have hu : (deadline now seconds).toNat ≤ now.toNat + 1000 * seconds.toNat :=
    toNat_deadline now seconds ▸ Nat.min_le_left ..
  rw [UInt64.toNat_sub_of_le _ _ (UInt64.le_of_lt hd), Nat.ceilDiv_eq_add_pred_div, Set.mem_Icc]
  omega

-- A key that is given a time to live can be seen until just before that is over, whatever the time
-- is and however long the key was to stay. The seconds that are left, a begun one counted in full,
-- are at least one and no more than were given, and stay the same when they are read as a number
-- that has a sign. Afterwards the key counts as missing.
theorem remaining_after_allotted (ha : store.Allots now key seconds command value)
    (hc : ∀ timed ∈ calls, timed.2.Spares key) (hn : now ≤ later) :
    let due := saturatingAdd now (saturatingMul seconds 1000)
    let after := (Store.call.trace (store.reply now command).2 calls).2
    let code := (after.ttl later key).code
    due.toNat = min (now.toNat + 1000 * seconds.toNat) (2 ^ 64 - 1) ∧
      (key ∈ after.keys later "" ↔ later.toNat < due.toNat) ∧
      (later.toNat < due.toNat →
        after.live? later key = some ⟨value, some due⟩ ∧
        (due - later).toNat = due.toNat - later.toNat ∧
        code = (begunSeconds (due - later)).toInt64 ∧
        code.toInt = ((due.toNat - later.toNat) ⌈/⌉ 1000 : Nat) ∧
        1 ≤ code.toInt ∧ code.toInt ≤ seconds.toNat) ∧
      (due.toNat ≤ later.toNat → after.live? later key = none ∧ code = -2) := by
  intro due after code
  have hd : due = deadline now seconds := (deadline_eq now seconds).symm
  have hl : after.live? later key = if later < due then some ⟨value, some due⟩ else none :=
    hd ▸ ha.live?_trace hc hn
  clear_value due
  subst hd
  refine ⟨toNat_deadline now seconds, ?seen, fun hb => ?before, fun hg => ?gone⟩
  case seen =>
    rw [mem_keys_all, hl, ← UInt64.lt_iff_toNat_lt]
    split <;> simp_all
  case before =>
    have hb : later < deadline now seconds := UInt64.lt_iff_toNat_lt.mpr hb
    have hs : (deadline now seconds - later).toNat = (deadline now seconds).toNat - later.toNat :=
      UInt64.toNat_sub_of_le _ _ (UInt64.le_of_lt hb)
    rw [if_pos hb] at hl
    have hw : code = (begunSeconds (deadline now seconds - later)).toInt64 :=
      code_ttl_of_live? hl (UInt64.le_of_lt hb)
    have hi : code.toInt = ((deadline now seconds - later).toNat ⌈/⌉ 1000 : Nat) :=
      hw ▸ toInt_begunSeconds _
    have ⟨ho, hm⟩ := left_mem_Icc hn hb
    exact ⟨hl, hs, hw, hs ▸ hi, by omega, by omega⟩
  case gone =>
    rw [if_neg (UInt64.not_lt.mpr (UInt64.le_iff_toNat_le.mpr hg))] at hl
    refine ⟨hl, ?_⟩
    change (after.ttl later key).code = -2
    rw [ttl, hl, Lifetime.code]

-- Near the end of time a list is given the longest life there is.
theorem remaining_near_end :
    let store := (Store.empty.lpush 0 "tokens" "a").2
    let now : Instant := 18446744073709549000
    let calls : List (Instant × Call) := [
      (now, .command (.lpush "queue" "job")), (now + 100, .command (.keys "tokens")),
      (now + 200, .size), (now + 300, .command (.delete "queue"))]
    let after := (Store.call.trace (store.reply now (.expire "tokens" (-1))).2 calls).2
    (after.ttl (now + 500) "tokens").code.toInt = 3 ∧
      (after.live? (-1) "tokens").isNone ∧ (after.ttl (-1) "tokens").code = -2 := by
  intro store now calls after
  have hl : store.live? now "tokens" = some ⟨.list ["a"], none⟩ := rfl
  have ha : store.Allots now "tokens" (-1) (.expire "tokens" (-1)) (.list ["a"]) :=
    .expire hl (by decide)
  have hc : ∀ timed ∈ calls, timed.2.Spares "tokens" := by
    simp [calls, Call.Spares, Command.key]
  have hb := (remaining_after_allotted ha hc (by decide : now ≤ now + 500)).2.2.1 (by decide)
  have hg := (remaining_after_allotted ha hc (by decide : now ≤ -1)).2.2.2 (by decide)
  refine ⟨hb.2.2.2.1.trans (by decide +kernel), ?_, hg.2⟩
  exact Option.isNone_iff_eq_none.mpr hg.1

end Store
end Entitlement
