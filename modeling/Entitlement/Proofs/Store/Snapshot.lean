import Entitlement.Proofs.Json.Reader
import Entitlement.Proofs.Store.Trace
import Entitlement.Proofs.Text.Bytes
import Entitlement.Store.Snapshot
/-!
A cache that was saved and loaded again: what is live at the time of loading is read back as it was,
so that the passing of the file cannot be seen.
-/

namespace Entitlement.Snapshot

open Json (Raw)
open Store (Slot Value)

theorem bytes?_bytesToRaw (data : ByteArray) : bytes? (bytesToRaw data) = some (.bytes data) := by
  rw [bytes?, bytesToRaw, Raw.list?_map Raw.byte?_wholeNumeral]
  rfl

theorem list?_map_ofText (items : List String) :
    list? (.array (items.map Raw.ofText)) = some (.list items) := by
  rw [list?, Raw.list?_map Raw.text?_ofText]
  rfl

theorem kind?_ofText (kind : String) : kind? (.ofText kind) = some kind :=
  Raw.text?_ofText kind

-- A value under the name of its kind.
theorem value?_kind (kind : String) (data : Raw) :
    value? (.object [Raw.named "kind" (.ofText kind), Raw.named "data" data]) =
      valueOf? kind data := by
  have hn := Raw.named?_ofNamed [("kind", .ofText kind), ("data", data)]
  change Raw.named? [Raw.named "kind" _, Raw.named "data" _] = _ at hn
  rw [value?]
  simp [hn, Raw.required?, Raw.member?, Raw.valuesOf, kind?_ofText]

theorem value?_valueToRaw (value : Value) : value? (valueToRaw value) = some value := by
  cases value
  case bytes data => exact (value?_kind ..).trans (bytes?_bytesToRaw data)
  case list items => exact (value?_kind ..).trans (list?_map_ofText items)

def members (slot : Slot) : List (String × Raw) :=
  ("value", valueToRaw slot.value) ::
    (slot.deadline?.map fun deadline => ("expires_at", .word deadline)).toList

theorem slotToRaw_eq (slot : Slot) : slotToRaw slot = .object (Raw.ofNamed (members slot)) := by
  rw [slotToRaw, members]
  cases slot.deadline? <;> rfl

theorem required?_value (slot : Slot) :
    Raw.required? "value" (members slot) = some (valueToRaw slot.value) := by
  rw [members]
  cases slot.deadline? <;> simp [Raw.required?, Raw.member?, Raw.valuesOf]

theorem member?_deadline (slot : Slot) :
    Raw.member? "expires_at" (members slot) = some (slot.deadline?.map Raw.word) := by
  rw [members]
  cases slot.deadline? <;> simp [Raw.member?, Raw.valuesOf]

theorem deadline?_map_word (deadline : Option Instant) :
    (deadline.map Raw.word).elim (some none) deadline? = some deadline := by
  cases deadline
  case none => rfl
  case some deadline =>
    rw [Option.map_some, Option.elim_some, deadline?, Raw.orNull?_word, Raw.uint64?_word]
    rfl

theorem slot?_slotToRaw (slot : Slot) : slot? (slotToRaw slot) = some slot := by
  rw [slotToRaw_eq, slot?]
  simp only [Raw.named?_ofNamed, required?_value, member?_deadline, value?_valueToRaw,
    deadline?_map_word, Option.bind_eq_bind, Option.bind_some]
  rfl

def slotMembers (slots : List (String × Slot)) : List (String × Raw) :=
  slots.map fun (key, slot) => (key, slotToRaw slot)

theorem slots?_slotMembers (slots : List (String × Slot)) :
    slots? (.object (Raw.ofNamed (slotMembers slots))) = some slots := by
  have h (entry : String × Slot) : (do return (entry.1, ← slot? (slotToRaw entry.2)) : Option _) =
      some entry := by
    rw [slot?_slotToRaw]
    rfl
  rw [slots?, Raw.named?_ofNamed]
  exact Raw.mapM_map fun slot _ => h slot

theorem toRaw_eq (slots : List (String × Slot)) :
    toRaw slots = .object (Raw.ofNamed [("slots", .object (Raw.ofNamed (slotMembers slots)))]) := by
  rw [toRaw, Raw.ofNamed, Raw.ofNamed, slotMembers, List.map_map]
  rfl

theorem readTree_toRaw (slots : List (String × Slot)) :
    readTree (toRaw slots) = .ok ⟨false, some slots⟩ := by
  have hr : readMember ⟨false, none⟩ "slots" (.object (Raw.ofNamed (slotMembers slots))) =
      .ok ⟨false, some slots⟩ := by
    rw [readMember, slots?_slotMembers]
    rfl
  rw [toRaw_eq]
  change readMembers ⟨false, none⟩ [(Json.rawText "slots", _)] = _
  rw [readMembers, Json.textOf?_rawText]
  change (readMember ⟨false, none⟩ "slots" _ >>= fun progress => readMembers progress []) = _
  rw [hr]
  rfl

theorem writable_valueToRaw (value : Value) : (valueToRaw value).Writable := by
  cases value
  case bytes data =>
    refine ⟨⟨_, rfl⟩, Raw.writable_ofText _, ⟨_, rfl⟩, ?_, trivial⟩
    exact Raw.itemsWritable_iff.mpr (List.forall_mem_map.mpr fun byte _ =>
      Raw.writable_wholeNumeral byte.toNat)
  case list items =>
    refine ⟨⟨_, rfl⟩, Raw.writable_ofText _, ⟨_, rfl⟩, ?_, trivial⟩
    exact Raw.itemsWritable_iff.mpr (List.forall_mem_map.mpr fun item _ => Raw.writable_ofText item)

theorem writable_slotToRaw (slot : Slot) : (slotToRaw slot).Writable := by
  rw [slotToRaw_eq]
  refine Raw.membersWritable_ofNamed (List.forall_mem_cons.mpr
    ⟨writable_valueToRaw slot.value, fun member hm => ?_⟩)
  have ⟨deadline, _, he⟩ := Option.map_eq_some_iff.mp (Option.mem_toList.mp hm)
  exact he ▸ Raw.writable_wholeNumeral deadline.toNat

theorem writable_toRaw (slots : List (String × Slot)) : (toRaw slots).Writable := by
  rw [toRaw_eq]
  refine Raw.membersWritable_ofNamed (List.forall_mem_singleton.mpr ?_)
  exact Raw.membersWritable_ofNamed (List.forall_mem_map.mpr fun entry _ =>
    writable_slotToRaw entry.2)

theorem read_textOf (slots : List (String × Slot)) : read (textOf slots) = .ok slots := by
  have hp : Raw.parse (textOf slots).toList = ⟨toRaw slots, true⟩ := by
    rw [textOf, String.toList_ofList]
    exact Raw.parse_of_layout (writable_toRaw _) (Raw.layout_pretty 0 _)
  rw [read, hp]
  dsimp only
  rw [readTree_toRaw]
  rfl

theorem load_textOf (loaded : Instant) (hs : slots.Perm (Store.live store saved)) :
    load (.file (textOf slots).toUTF8) loaded = .ok ((store.swept saved).swept loaded) := by
  have ho : Store.ofList slots = store.swept saved := by
    simp only [Store.ofList, Fields.ofList_of_perm (store.live_ascending saved) hs]
    rfl
  rw [load]
  simp only [Text.fromUTF8?_toUTF8, read_textOf, ho]

theorem write_eq (hp : place ≠ .directory) (text : String) :
    write text place = .ok (.file text.toUTF8) := by
  cases place
  case directory => exact absurd rfl hp
  all_goals rfl

-- A cache that is saved and loaded goes on as if it had stayed, in whatever order its slots were
-- written.
theorem load_save_unseen (store : Store) (hp : place ≠ .directory) (hn : saved ≤ loaded) :
    ∃ restarted,
      (∃ file, save store saved place = .ok file ∧ load file loaded = .ok restarted) ∧
      (∀ slots, slots.Perm (store.live saved) → ∃ file,
        write (textOf slots) place = .ok file ∧ load file loaded = .ok restarted) ∧
      (∀ calls, (loaded :: calls.map Prod.fst).Pairwise (· ≤ ·) →
        (Store.call.trace restarted calls).1 = (Store.call.trace store calls).1) ∧
      ∀ later, loaded ≤ later → restarted.live later = store.live later := by
  have ha : ((store.swept saved).swept loaded).Alike loaded store := fun key =>
    (Store.alike_swept _ (UInt64.le_refl loaded) key).trans (store.alike_swept hn key)
  have hw (slots) (hs : slots.Perm (store.live saved)) : ∃ file,
      write (textOf slots) place = .ok file ∧
        load file loaded = .ok ((store.swept saved).swept loaded) :=
    ⟨_, write_eq hp _, load_textOf loaded hs⟩
  exact ⟨_, hw _ (.refl _), hw, fun calls ht => Store.call_simulates.answers_eq ha ht,
    fun later hl => (ha.wait hl).live⟩

-- Bytes, an empty list and a slot that has expired, under keys that need escapes.
theorem load_save_unseen_after_expiry :
    let store := Store.ofList [("identity:\"\n", ⟨.bytes ⟨#[0, 255]⟩, some 5000⟩),
      ("é\\", ⟨.list [], none⟩), ("old", ⟨.list ["a"], some 1500⟩)]
    Place.absent ≠ .directory ∧ (1000 : Instant) ≤ 2000 ∧ ∃ restarted,
      (∃ file, save store 1000 .absent = .ok file ∧ load file 2000 = .ok restarted) ∧
      (∀ slots, slots.Perm (store.live 1000) → ∃ file,
        write (textOf slots) .absent = .ok file ∧ load file 2000 = .ok restarted) ∧
      (∀ calls, (2000 :: calls.map Prod.fst).Pairwise (· ≤ ·) →
        (Store.call.trace restarted calls).1 = (Store.call.trace store calls).1) ∧
      ∀ later, 2000 ≤ later → restarted.live later = store.live later := by
  intro store
  have hp : Place.absent ≠ .directory := nofun
  have hn : (1000 : Instant) ≤ 2000 := by decide
  exact ⟨hp, hn, load_save_unseen store hp hn⟩

end Entitlement.Snapshot
