import Entitlement.Proofs.Store.Effect
import Entitlement.Store.Script
/-!
Several scripts at one cache, which serves their commands one at a time and in any order. Time
stands still meanwhile, and no command is refused.
-/

namespace Entitlement

variable {α β : Type} {now : Instant}

namespace Script

def isDone : Script α → Bool
  | done _ => true
  | send .. => false

-- A script that sends certain commands one after another and comes to a value, if none of them fails.
inductive Follows (value : α) : List Command → Script α → Prop
  | done : Follows value [] (.done value)
  | send {command commands next} (h : ∀ reply, Follows value commands (next (.ok reply))) :
    Follows value (command :: commands) (.send command next)

theorem Follows.of_send {value : α} {next : Except StoreError command.Reply → Script α}
    (h : (Script.send command next).Follows value commands) :
    ∃ rest, commands = command :: rest ∧ ∀ reply, (next (.ok reply)).Follows value rest := by
  cases h
  case send rest h => exact ⟨rest, rfl, h⟩

theorem Follows.of_isDone {script : Script α} {value : α} (h : script.Follows value commands)
    (hd : script.isDone) : commands = [] ∧ script = .done value := by
  cases h
  case done => exact ⟨rfl, rfl⟩
  case send => exact nomatch hd

theorem Follows.bind {script : Script α} {f : α → Script β} {value : α} {last : β}
    (h : script.Follows value commands) (hf : (f value).Follows last more) :
    (script >>= f).Follows last (commands ++ more) := by
  induction h
  case done => exact hf
  case send hi => exact .send hi

end Script

structure Crowd (α : Type) where
  scripts : List (Script α)
  cache : Store

namespace Crowd

-- The script at a place has its next command served, if there is one.
def turn (now : Instant) (crowd : Crowd α) (place : Nat) : Crowd α :=
  match crowd.scripts[place]? with
  | some (.send command next) =>
    let (reply, cache) := crowd.cache.reply now command
    ⟨crowd.scripts.set place (next reply), cache⟩
  | _ => crowd

def run (now : Instant) (crowd : Crowd α) (order : List Nat) : Crowd α :=
  order.foldl (turn now) crowd

def Finished (crowd : Crowd α) : Prop :=
  ∀ script ∈ crowd.scripts, script.isDone

instance (crowd : Crowd α) : Decidable crowd.Finished :=
  inferInstanceAs (Decidable (∀ script ∈ crowd.scripts, script.isDone))

variable {crowd : Crowd α} {place : Nat}

theorem run_append (crowd : Crowd α) (order more : List Nat) :
    crowd.run now (order ++ more) = (crowd.run now order).run now more :=
  List.foldl_append ..

theorem turn_of_send (h : crowd.scripts[place]? = some (.send command next)) :
    crowd.turn now place = ⟨crowd.scripts.set place (next (crowd.cache.reply now command).1),
      (crowd.cache.reply now command).2⟩ := by
  rw [turn, h]

theorem turn_of_none (h : ∀ command next, crowd.scripts[place]? ≠ some (.send command next)) :
    crowd.turn now place = crowd := by
  rw [turn]
  split
  case h_1 command next hs => exact absurd hs (h command next)
  case h_2 => rfl

-- A script that has its turns in a row comes to its end.
theorem exists_done {script : Script α} (now : Instant)
    (h : crowd.scripts[place]? = some script) :
    ∃ order value, (crowd.run now order).scripts = crowd.scripts.set place (.done value) := by
  have ⟨hl, he⟩ := List.getElem?_eq_some_iff.mp h
  induction script generalizing crowd
  case done value => exact ⟨[], value, he ▸ (List.set_getElem_self hl).symm⟩
  case send command next hi =>
    have ht : crowd.turn now place = _ := turn_of_send h
    have hs : (crowd.turn now place).scripts[place]? =
        some (next (crowd.cache.reply now command).1) := by
      rw [ht, List.getElem?_set_self hl]
    have ⟨hl, he⟩ := List.getElem?_eq_some_iff.mp hs
    have ⟨order, value, ho⟩ := hi _ hs hl he
    refine ⟨place :: order, value, ?_⟩
    change ((crowd.turn now place).run now order).scripts = _
    rw [ho, ht, List.set_set]

-- However far a crowd has come, it can be brought to its end.
theorem exists_finished (crowd : Crowd α) : ∃ order, (crowd.run now order).Finished := by
  induction hn : crowd.scripts.countP (!·.isDone) generalizing crowd
  case zero =>
    refine ⟨[], fun script hs => ?_⟩
    simpa using List.countP_eq_zero.mp hn script hs
  case succ n hi =>
    have ⟨script, hs, hd⟩ := List.countP_pos_iff.mp (Nat.lt_of_lt_of_eq n.succ_pos hn.symm)
    have ⟨place, hl, he⟩ := List.getElem_of_mem hs
    have ⟨order, value, ho⟩ := exists_done now (List.getElem?_eq_some_iff.mpr ⟨hl, he⟩)
    have hc : (crowd.run now order).scripts.countP (!·.isDone) = n := by
      rw [ho, List.countP_set hl, hn, he, if_pos hd]
      rfl
    have ⟨more, hf⟩ := hi _ hc
    exact ⟨order ++ more, by rwa [run_append]⟩

end Crowd

-- What a script is going to send, and what it will come to.
structure Plan (α : Type) where
  commands : List Command
  value : α

-- What was served to the script at a place, out of all that was served.
def servedAt (place : Nat) (served : List (Nat × Command)) : List Command :=
  (served.filter (·.1 = place)).map Prod.snd

theorem servedAt_append (place : Nat) (served : List (Nat × Command)) (entry : Nat × Command) :
    servedAt place (served ++ [entry]) =
      servedAt place served ++ if entry.1 = place then [entry.2] else [] := by
  rw [servedAt, List.filter_append, List.map_append, ← servedAt]
  split <;> simp_all

-- Commands that were sent from one place only were served there.
theorem filter_servedAt {p : Command → Bool} {served : List (Nat × Command)}
    (h : ∀ entry ∈ served, p entry.2 → entry.1 = place) :
    (served.map Prod.snd).filter p = (servedAt place served).filter p := by
  rw [servedAt, List.filter_map, List.filter_map, List.filter_filter]
  refine congrArg _ (List.filter_congr fun entry he => ?_)
  simpa using fun hp => h entry he hp

namespace Crowd

-- How a crowd that sets out with plans stands after some commands were served.
structure Under (plans : List (Plan α)) (now : Instant) (cache : Store)
    (served : List (Nat × Command)) (crowd : Crowd α) : Prop where
  cache : crowd.cache = cache.serve now (served.map Prod.snd)
  length : crowd.scripts.length = plans.length
  within : ∀ entry ∈ served, entry.1 < plans.length
  rest : ∀ place plan script, plans[place]? = some plan → crowd.scripts[place]? = some script →
    ∃ rest, plan.commands = servedAt place served ++ rest ∧ script.Follows plan.value rest

-- No command of the plans fails in a cache of a kind, nor does it change the kind.
def Upheld (plans : List (Plan α)) (now : Instant) (inv : Store → Prop) : Prop :=
  ∀ plan ∈ plans, ∀ command ∈ plan.commands, ∀ cache, inv cache →
    (∃ reply, (cache.reply now command).1 = .ok reply) ∧ inv (cache.reply now command).2

variable {plans : List (Plan α)} {crowd : Crowd α} {served : List (Nat × Command)} {cache : Store}
  {inv : Store → Prop}

theorem Under.turn (h : Under plans now cache served crowd) (hu : Upheld plans now inv)
    (hi : inv crowd.cache) (place : Nat) : ∃ served,
      Under plans now cache served (crowd.turn now place) ∧ inv (crowd.turn now place).cache := by
  match hs : crowd.scripts[place]? with
  | none | some (.done _) => exact ⟨served, by rw [turn_of_none (by simp [hs])]; exact ⟨h, hi⟩⟩
  | some (.send command next) =>
    have hl : place < plans.length := h.length ▸ (List.getElem?_eq_some_iff.mp hs).1
    have ⟨rest, hr, hf⟩ := h.rest place _ _ (List.getElem?_eq_getElem hl) hs
    obtain ⟨left, rfl, hw⟩ := hf.of_send
    have hm : command ∈ plans[place].commands := by simp [hr]
    have ⟨⟨reply, hk⟩, hi⟩ := hu _ (List.getElem_mem hl) command hm _ hi
    rw [turn_of_send hs]
    refine ⟨served ++ [(place, command)], ?_, hi⟩
    constructor
    case cache => simp [h.cache, Store.serve]
    case length => simp [h.length]
    case within => simpa [or_imp, forall_and, hl] using h.within
    case rest =>
      intro other plan script hp ho
      rw [servedAt_append]
      by_cases he : place = other
      case pos =>
        subst he
        cases (List.getElem?_eq_getElem hl).symm.trans hp
        rw [List.getElem?_set_self (h.length ▸ hl), hk] at ho
        cases ho
        exact ⟨left, by simp [hr], hw reply⟩
      case neg =>
        rw [List.getElem?_set_ne he] at ho
        simpa [he] using h.rest other plan script hp ho

theorem Under.run (h : Under plans now cache served crowd) (hu : Upheld plans now inv)
    (hi : inv crowd.cache) (order : List Nat) : ∃ served,
      Under plans now cache served (crowd.run now order) ∧ inv (crowd.run now order).cache := by
  induction order generalizing crowd served
  case nil => exact ⟨served, h, hi⟩
  case cons place order ho =>
    have ⟨_, h, hi⟩ := h.turn hu hi place
    exact ho h hi

theorem Under.begin {members : List γ} {script : γ → Script α} {plan : γ → Plan α}
    (h : ∀ member ∈ members, (script member).Follows (plan member).value (plan member).commands)
    (cache : Store) : Under (members.map plan) now cache [] ⟨members.map script, cache⟩ where
  cache := rfl
  length := by simp
  within := nofun
  rest place plan script hp hs := by
    simp only [List.getElem?_map, Option.map_eq_some_iff] at hp hs
    obtain ⟨member, hm, rfl⟩ := hp
    obtain ⟨_, ho, rfl⟩ := hs
    cases hm.symm.trans ho
    exact ⟨_, rfl, h member (List.mem_of_getElem? hm)⟩

-- What was served belongs to the plan of its place.
theorem Under.mem_commands (h : Under plans now cache served crowd) (he : entry ∈ served) :
    ∃ plan, plans[entry.1]? = some plan ∧ entry.2 ∈ plan.commands := by
  have hl := h.within entry he
  have ⟨rest, hr, _⟩ := h.rest entry.1 _ _ (List.getElem?_eq_getElem hl)
    (List.getElem?_eq_getElem (h.length ▸ hl))
  have hm : entry.2 ∈ servedAt entry.1 served :=
    List.mem_map_of_mem (List.mem_filter.mpr ⟨he, decide_eq_true rfl⟩)
  exact ⟨_, List.getElem?_eq_getElem hl, hr ▸ List.mem_append_left rest hm⟩

-- At the end all plans are carried out.
theorem Under.finished (h : Under plans now cache served crowd) (hf : crowd.Finished)
    (hp : plans[place]? = some plan) : servedAt place served = plan.commands ∧
      crowd.scripts[place]? = some (.done plan.value) := by
  have hl : place < crowd.scripts.length := h.length ▸ (List.getElem?_eq_some_iff.mp hp).1
  have hs : crowd.scripts[place]? = some crowd.scripts[place] := List.getElem?_eq_getElem hl
  have ⟨rest, hr, hw⟩ := h.rest place plan _ hp hs
  obtain ⟨rfl, hd⟩ := hw.of_isDone (hf _ (List.getElem_mem hl))
  exact ⟨by rw [hr, List.append_nil], by rw [hs, hd]⟩

theorem Under.scripts_eq (h : Under plans now cache served crowd) (hf : crowd.Finished) :
    crowd.scripts = plans.map fun plan => .done plan.value := by
  refine List.ext_getElem? fun place => ?_
  rw [List.getElem?_map]
  match hp : plans[place]? with
  | some plan => exact (h.finished hf hp).2
  | none =>
    rw [List.getElem?_eq_none_iff, ← h.length] at hp
    exact List.getElem?_eq_none_iff.mpr hp

-- Among commands that are in one plan only, it is as if this plan had been carried out alone.
theorem Under.filter_eq {p : Command → Bool} {plan : Plan α}
    (h : Under plans now cache served crowd) (hf : crowd.Finished)
    (hp : plans[place]? = some plan)
    (hc : ∀ (other : Nat) (next : Plan α), plans[other]? = some next →
      ∀ command ∈ next.commands, p command → other = place) :
    (served.map Prod.snd).filter p = plan.commands.filter p := by
  have hs : ∀ entry ∈ served, p entry.2 → entry.1 = place := by
    intro entry he
    have ⟨next, hn, hm⟩ := h.mem_commands he
    exact hc entry.1 next hn entry.2 hm
  rw [filter_servedAt hs, (h.finished hf hp).1]

end Crowd
end Entitlement
