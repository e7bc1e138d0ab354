import Entitlement.Proofs.Session.History
import Entitlement.Proofs.Session.Quiet
import Entitlement.Proofs.Session.Restrict
/-!
When a record counts as changed: as long as there is something that a save would still have to
write. This can be seen from what the session was asked for, and from what was said to the cache.
-/

namespace Entitlement

variable {session next last : Session} {held : Held} {exchanges : List Exchange} {acts : List Act}
  {act : Act}

namespace Act

-- A record was read, and has taken the place of what was in memory.
def replaces (act : Act) : Prop :=
  ∃ exchange ∈ act.exchanges, exchange.found?.isSome

def puts (act : Act) : Prop :=
  ∃ exchange ∈ act.exchanges, exchange.puts

-- The record was written, and everything that belongs to that has succeeded.
def writes (act : Act) : Prop :=
  act.puts ∧ act.answer.isOk

-- Other grants have become active in memory. They are stored afterwards, which may fail.
def changes (act : Act) : Prop :=
  match act.operation with
  | .activate _ | .restore => act.answer.isOk
  | .restrict .. => act.puts ∨ act.answer.isOk
  | _ => False

def removes (act : Act) : Prop :=
  act.operation = .remove ∧ act.answer.isOk

-- The list that becomes active, together with its text in the record.
def brings (act : Act) (held : Held) : Prop :=
  match act.operation with
  | .activate grants | .restrict grants _ =>
    held.active? = some (compacted grants) ∧ held.record.user.perms = Blob.encode (compacted grants)
  | .restore => held.active? = held.full? ∧ held.record.user.perms = held.record.full
  | _ => False

-- What an operation makes of a session. If it changes something, what was asked for is active in
-- memory afterwards. If not, the record there is the one from before, or one that was read.
structure Leads (act : Act) (session next : Session) : Prop where
  modified : next.isModified ↔ ¬act.writes ∧ (act.changes ∨ session.isModified ∧ ¬act.replaces)
  brings : act.changes → ∃ held, next.state = .held held ∧ act.brings held
  inherits : ¬act.changes → Inherits session act.exchanges next

theorem not_replaces : ¬act.replaces ↔ ∀ exchange ∈ act.exchanges, exchange.found? = none := by
  simp [replaces]

theorem not_puts (h : Quiet session act.exchanges next) : ¬act.puts := by
  rintro ⟨exchange, hm, hp⟩
  exact Bool.false_ne_true ((h.unwritten exchange hm).symm.trans hp)

theorem Leads.of_quiet (h : Quiet session act.exchanges next) (hc : ¬act.changes) :
    act.Leads session next where
  modified := by
    rw [h.modified, ← not_replaces]
    simp [hc, writes, not_puts h]
  brings := fun hf => absurd hf hc
  inherits := fun _ => h.inherits

-- An operation that fails has changed the record only if it tried to write it.
theorem Leads.of_failed {operation : Operation} {error : AccessError}
    (h : Quiet session exchanges next) :
    Leads ⟨operation, exchanges, .error error⟩ session next := by
  refine .of_quiet h ?_
  cases operation
  case activate | restore => exact Bool.false_ne_true
  case restrict =>
    rintro (hp | ho)
    · exact not_puts h hp
    · exact Bool.false_ne_true ho
  all_goals exact not_false

theorem Leads.of_changes (hc : act.changes) (hm : next.isModified ↔ ¬act.writes)
    (hs : next.state = .held held) (hb : act.brings held) : act.Leads session next where
  modified := by simp [hm, hc]
  brings := fun _ => ⟨held, hs, hb⟩
  inherits := fun hf => absurd hc hf

end Act

namespace Session

open Act (Leads)

variable {more : List Exchange} {middle : Session} {record : Record} {never : Bool}

-- To write a record is to put it into the cache first of all.
theorem puts_of_written {result : Except AccessError Unit × Session}
    (h : Carried session (session.writing record never) last more result) :
    ∃ exchange ∈ exchanges ++ more, exchange.puts := by
  have ⟨⟨command, reply⟩, hm, he⟩ := h.head
  cases he
  exact ⟨_, List.mem_append_right _ hm, rfl⟩

theorem not_found_of_written {result : Except AccessError Unit × Session}
    (h : Carried session (session.writing record never) last exchanges result) :
    ∀ exchange ∈ exchanges, exchange.found? = none := by
  rintro ⟨command, reply⟩ hm
  have hw : ∀ key, command ≠ .get key := by
    rintro key rfl
    have hc := h.mem_commands _ hm
    cases never <;> simp [writing, persisting] at hc
  cases command
  case get key => exact absurd rfl (hw key)
  all_goals rfl

theorem leads_activate {grants : List Grant} {answer : Except AccessError Unit}
    (h : (perform (activate grants) session).Hears exchanges (answer, next)) :
    Leads ⟨.activate grants, exchanges, answer⟩ session next := by
  obtain ⟨error, rfl, hq⟩ | ⟨held, middle, first, more, rfl, hq, _, hn⟩ := Quiets.held.bind_cases h
  · exact .of_failed hq
  · obtain _ | _ := hn
    rw [List.append_nil]
    refine .of_changes rfl ?_ rfl ⟨rfl, rfl⟩
    exact iff_of_true rfl fun hw => Act.not_puts hq hw.1

theorem leads_restore {answer : Except AccessError Unit}
    (h : (perform restore session).Hears exchanges (answer, next)) :
    Leads ⟨.restore, exchanges, answer⟩ session next := by
  obtain ⟨error, rfl, hq⟩ | ⟨full, middle, first, more, rfl, hq, ⟨held, hs, hf⟩, hn⟩ :=
    Quiets.fullGrants.bind_cases h
  · exact .of_failed hq
  · rw [perform_bind, perform_held hs, pure_bind] at hn
    obtain _ | _ := hn
    rw [List.append_nil]
    refine .of_changes rfl ?_ rfl ⟨hf.symm, ?_⟩
    · exact iff_of_true rfl fun hw => Act.not_puts hq hw.1
    · change held.record.full = held.record.full?.getD held.record.full
      rw [Record.full]
      cases held.record.full? <;> rfl

-- A list that is accepted is active before it is stored, and stays so if it cannot be stored.
theorem leads_restrict {grants : List Grant} {store : Bool} {answer : Except AccessError Unit}
    (h : (perform (restrict grants store) session).Hears exchanges (answer, next)) :
    Leads ⟨.restrict grants store, exchanges, answer⟩ session next := by
  obtain ⟨error, rfl, hq⟩ | ⟨full, middle, first, more, rfl, hq, ⟨held, hs, _⟩, hn⟩ :=
    Quiets.fullGrants.bind_cases h
  · exact .of_failed hq
  · change (perform (judge grants store full) middle).Hears _ _ at hn
    rw [judge] at hn
    split at hn
    case h_1 =>
      obtain _ | _ := hn
      rw [List.append_nil]
      exact .of_failed hq
    case h_2 =>
      rw [perform_bind, perform_activate hs, pure_bind] at hn
      cases store
      case false =>
        obtain _ | _ := hn
        rw [List.append_nil]
        refine .of_changes (.inr rfl) ?_ rfl ⟨rfl, rfl⟩
        exact iff_of_true rfl fun hw => Act.not_puts hq hw.1
      case true =>
        have hw : Carried _ (writing _ _ false) _ more (answer, next) :=
          carries_write rfl false more _ hn
        have hp : ∃ exchange ∈ first ++ more, exchange.puts := puts_of_written hw
        cases hw
        case whole =>
          refine .of_changes (.inl hp) ?_ rfl ⟨rfl, rfl⟩
          exact iff_of_false Bool.false_ne_true (not_not.mpr ⟨hp, rfl⟩)
        case broken =>
          refine .of_changes (.inl hp) ?_ rfl ⟨rfl, rfl⟩
          exact iff_of_true rfl fun hw => Bool.false_ne_true hw.2

theorem leads_save {answer : Except AccessError Unit}
    (h : (perform (save never) session).Hears exchanges (answer, next)) :
    Leads ⟨.save never, exchanges, answer⟩ session next := by
  obtain ⟨error, rfl, hq⟩ | ⟨held, middle, first, more, rfl, hq, hs, hn⟩ :=
    Quiets.held.bind_cases h
  · exact .of_failed hq
  · cases hm : held.modified
    case false =>
      rw [hm, if_neg Bool.false_ne_true] at hn
      exact .of_quiet (hq.trans (Quiets.refresh more _ hn).1) not_false
    case true =>
      rw [hm, if_pos rfl] at hn
      have hw : Carried middle _ _ more (answer, next) := carries_write hs never more _ hn
      have hp : ∃ exchange ∈ first ++ more, exchange.puts := puts_of_written hw
      have hf : ∀ exchange ∈ more, exchange.found? = none := not_found_of_written hw
      have hi : next.inMemory? = middle.inMemory? := by
        cases hw
        case whole => exact (inMemory?_of_held hs).symm
        case broken => rfl
      refine ⟨?_, False.elim, fun _ => hq.inherits.trans (.inl hi)⟩
      cases hw
      case whole => exact iff_of_false Bool.false_ne_true fun ho => ho.1 ⟨hp, rfl⟩
      case broken =>
        rw [hq.modified, Act.not_replaces, List.forall_mem_append, and_iff_left hf]
        constructor
        case mp => exact fun hr => ⟨fun hw => Bool.false_ne_true hw.2, .inr hr⟩
        case mpr => exact fun ho => ho.2.resolve_left not_false

theorem leads_remove {answer : Except AccessError Unit}
    (h : (perform remove session).Hears exchanges (answer, next))
    (hr : ¬Act.removes ⟨.remove, exchanges, answer⟩) :
    Leads ⟨.remove, exchanges, answer⟩ session next := by
  obtain ⟨error, rfl, hq⟩ | ⟨user, middle, first, more, rfl, hq, _, hn⟩ := Quiets.user.bind_cases h
  · exact .of_failed hq
  · have hc : Carried middle (removing middle.token user) _ more (answer, next) :=
      middle.carries_removing user more _ hn
    cases answer
    case ok => exact absurd ⟨rfl, rfl⟩ hr
    case error =>
      refine .of_quiet (hq.trans (.of_carried hc ?_ hc.session_of_error)) not_false
      simp [removing, Command.Conveys]

theorem leads {operation : Operation} {answer : Except AccessError operation.Answer}
    (h : (perform operation.ask session).Hears exchanges (answer, next))
    (hr : ¬Act.removes ⟨operation, exchanges, answer⟩) :
    Leads ⟨operation, exchanges, answer⟩ session next := by
  cases operation
  case activate => exact leads_activate h
  case restore => exact leads_restore h
  case restrict => exact leads_restrict h
  case save => exact leads_save h
  case remove => exact leads_remove h hr
  case load => exact .of_quiet (Quiets.load exchanges _ h).1 not_false
  case record => exact .of_quiet (Quiets.record exchanges _ h).1 not_false
  case user => exact .of_quiet (Quiets.user exchanges _ h).1 not_false
  case activeGrants => exact .of_quiet (Quiets.activeGrants exchanges _ h).1 not_false
  case fullGrants => exact .of_quiet (Quiets.fullGrants exchanges _ h).1 not_false
  case can => exact .of_quiet (Quiets.can exchanges _ h).1 not_false
  case isActive => exact .of_quiet (Quiets.isActive exchanges _ h).1 not_false
  case remaining => exact .of_quiet (Quiets.remaining exchanges _ h).1 not_false
  case setLifetime => exact .of_quiet (Quiets.setLifetime exchanges _ h).1 not_false
  case refresh => exact .of_quiet (Quiets.refresh exchanges _ h).1 not_false
  case intoRecord => exact .of_quiet (Quiets.intoRecord exchanges _ h).1 not_false

end Session
end Entitlement
