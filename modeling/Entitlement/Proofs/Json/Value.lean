import Entitlement.Json.Reader
import Entitlement.Proofs.Fields
import Entitlement.Proofs.Json.Number
import Entitlement.Proofs.Json.Reader
/-!
Every value has a tree that can be written. A value that was read is read again from its own tree if
it has no doubles in it, and what comes first under a name is the only thing under it if it is read
at all.
-/

namespace Entitlement.Json

open Raw (ofNamed)

mutual

theorem writable_toRaw (value : Json) : value.toRaw.Writable := by
  match value with
  | null | bool _ => trivial
  | number n => exact n.wellFormed_numeral
  | string text => exact ⟨text.toList, rfl⟩
  | array items => exact itemsWritable_itemsToRaw items
  | object fields => exact membersWritable_fieldsToRaw fields

theorem itemsWritable_itemsToRaw (items : List Json) : Raw.ItemsWritable (itemsToRaw items) := by
  match items with
  | [] => trivial
  | first :: rest => exact ⟨writable_toRaw first, itemsWritable_itemsToRaw rest⟩

theorem membersWritable_fieldsToRaw (fields : List (String × Json)) :
    Raw.MembersWritable (fieldsToRaw fields) := by
  match fields with
  | [] => trivial
  | (name, first) :: rest =>
    exact ⟨⟨name.toList, rfl⟩, writable_toRaw first, membersWritable_fieldsToRaw rest⟩

end

mutual

-- No number in the value is a double.
def isExact : Json → Bool
  | null | bool _ | string _ => true
  | number (.integer ..) => true
  | number (.double _) => false
  | array items => itemsExact items
  | object fields => fieldsExact fields

def itemsExact : List Json → Bool
  | [] => true
  | first :: rest => isExact first && itemsExact rest

def fieldsExact : List (String × Json) → Bool
  | [] => true
  | (_, first) :: rest => isExact first && fieldsExact rest

end

theorem isExact_of_mem (h : itemsExact items) : ∀ item ∈ items, isExact item := by
  induction items
  case nil => exact List.forall_mem_nil _
  case cons first rest hi =>
    have ⟨hf, hr⟩ := Bool.and_eq_true_iff.mp h
    exact List.forall_mem_cons.mpr ⟨hf, hi hr⟩

theorem isExact_of_mem_fields (h : fieldsExact fields) : ∀ field ∈ fields, isExact field.2 := by
  induction fields
  case nil => exact List.forall_mem_nil _
  case cons first rest hi =>
    have ⟨hf, hr⟩ := Bool.and_eq_true_iff.mp h
    exact List.forall_mem_cons.mpr ⟨hf, hi hr⟩

-- The value is read from its own tree.
def Returns (depth : Nat) (value : Json) : Prop :=
  ofRaw? depth value.toRaw = some value

theorem itemsOfRaw?_itemsToRaw (h : ∀ item ∈ items, Returns depth item) :
    itemsOfRaw? depth (itemsToRaw items) = some items := by
  induction items
  case nil => rfl
  case cons first rest hi =>
    have ⟨hf, hr⟩ := List.forall_mem_cons.mp h
    rw [itemsToRaw, itemsOfRaw?, hf, hi hr]
    rfl

theorem membersOfRaw?_fieldsToRaw (h : ∀ field ∈ fields, Returns depth field.2) :
    membersOfRaw? depth (fieldsToRaw fields) = some fields := by
  induction fields
  case nil => rfl
  case cons first rest hi =>
    have ⟨hf, hr⟩ := List.forall_mem_cons.mp h
    rw [fieldsToRaw, membersOfRaw?, textOf?_rawText, hf, hi hr]
    rfl

theorem returns_integer (fits : FitsWord n) : Returns depth (.number (.integer n fits)) :=
  congrArg (Option.map Json.number) (Number.ofNumeral?_wholeNumeral fits)

theorem returns_string (text : String) : Returns depth (.string text) :=
  congrArg (Option.map Json.string) (textOf?_rawText text)

theorem returns_array (h : ∀ item ∈ items, Returns depth item) :
    Returns (depth + 1) (.array items) :=
  congrArg (Option.map Json.array) (itemsOfRaw?_itemsToRaw h)

theorem returns_object {fields : Fields Json} (ha : fields.Ascending)
    (h : ∀ field ∈ fields, Returns depth field.2) : Returns (depth + 1) (.object fields) := by
  rw [Returns, toRaw, ofRaw?, membersOfRaw?_fieldsToRaw h, Option.map_some,
    Fields.ofList_of_perm ha (.refl _)]

-- Values without doubles whose objects have their members in order, with up to `depth` containers
-- inside each other.
inductive Regular : Nat → Json → Prop
  | null {depth : Nat} : Regular depth .null
  | bool {depth : Nat} {value : Bool} : Regular depth (.bool value)
  | integer {depth : Nat} {n : Int} {fits : FitsWord n} :
    Regular depth (.number (.integer n fits))
  | string {depth : Nat} {text : String} : Regular depth (.string text)
  | array {depth : Nat} {items : List Json} (hi : ∀ item ∈ items, Regular depth item) :
    Regular (depth + 1) (.array items)
  | object {depth : Nat} {fields : List (String × Json)} (ha : Fields.Ascending fields)
    (hf : ∀ field ∈ fields, Regular depth field.2) : Regular (depth + 1) (.object fields)

theorem Regular.mono (h : Regular depth value) (hd : depth ≤ deeper) : Regular deeper value := by
  induction h generalizing deeper
  case null => exact .null
  case bool => exact .bool
  case integer => exact .integer
  case string => exact .string
  case array items _ hi =>
    obtain ⟨deeper, rfl⟩ := Nat.exists_eq_add_of_lt hd
    exact .array fun item hm => hi item hm (by omega)
  case object fields ha _ hi =>
    obtain ⟨deeper, rfl⟩ := Nat.exists_eq_add_of_lt hd
    exact .object ha fun field hm => hi field hm (by omega)

theorem Regular.returns (h : Regular depth value) : Returns depth value := by
  induction h
  case null | bool => rfl
  case integer => exact returns_integer _
  case string => exact returns_string _
  case array hi => exact returns_array hi
  case object ha _ hi => exact returns_object ha hi

mutual

-- Of the members of an object only those count that are kept: another one may be a double.
theorem returns_of_ofRaw? (tree : Raw) (h : ofRaw? depth tree = some value) (he : value.isExact) :
    Returns depth value := by
  match tree with
  | .null | .bool _ =>
    cases h
    rfl
  | .number numeral =>
    have ⟨read, _, hv⟩ := Option.map_eq_some_iff.mp h
    cases hv
    match read with
    | .integer n fits => exact returns_integer fits
  | .string body =>
    have ⟨text, _, hv⟩ := Option.map_eq_some_iff.mp h
    cases hv
    exact returns_string text
  | .array items =>
    match depth with
    | depth + 1 =>
      have ⟨values, hi, hv⟩ := Option.map_eq_some_iff.mp h
      cases hv
      have hr := returns_of_itemsOfRaw? items hi
      exact returns_array fun item hm => hr item hm (isExact_of_mem he item hm)
  | .object members =>
    match depth with
    | depth + 1 =>
      have ⟨entries, hm, hv⟩ := Option.map_eq_some_iff.mp h
      cases hv
      have hr := returns_of_membersOfRaw? members hm
      exact returns_object (Fields.ofList_ascending entries) fun field hf =>
        hr field (Fields.mem_of_mem_ofList hf) (isExact_of_mem_fields he field hf)

theorem returns_of_itemsOfRaw? (items : List Raw) (h : itemsOfRaw? depth items = some values) :
    ∀ value ∈ values, value.isExact → Returns depth value := by
  match items with
  | [] => cases h; exact List.forall_mem_nil _
  | first :: rest =>
    rw [itemsOfRaw?] at h
    simp only [Option.bind_eq_bind, Option.bind_eq_some_iff] at h
    obtain ⟨value, hf, values, hr, ⟨⟩⟩ := h
    exact List.forall_mem_cons.mpr ⟨returns_of_ofRaw? first hf, returns_of_itemsOfRaw? rest hr⟩

theorem returns_of_membersOfRaw? (members : List (List Char × Raw))
    (h : membersOfRaw? depth members = some entries) :
    ∀ entry ∈ entries, entry.2.isExact → Returns depth entry.2 := by
  match members with
  | [] => cases h; exact List.forall_mem_nil _
  | (name, first) :: rest =>
    rw [membersOfRaw?] at h
    simp only [Option.bind_eq_bind, Option.bind_eq_some_iff] at h
    obtain ⟨_, _, value, hf, entries, hr, ⟨⟩⟩ := h
    exact List.forall_mem_cons.mpr ⟨returns_of_ofRaw? first hf, returns_of_membersOfRaw? rest hr⟩

end

-- Fields as members, by the texts of their names.
def membersOf (fields : List (String × Json)) : List (String × Raw) :=
  fields.map fun (name, value) => (name, value.toRaw)

theorem fieldsToRaw_eq (fields : List (String × Json)) :
    fieldsToRaw fields = ofNamed (membersOf fields) := by
  induction fields
  case nil => rfl
  case cons field fields hi => simp [fieldsToRaw, hi, membersOf, ofNamed, Raw.named]

theorem writable_of_mem_membersOf (h : member ∈ membersOf fields) : member.2.Writable := by
  have ⟨(name, value), _, he⟩ := List.mem_map.mp h
  exact he ▸ writable_toRaw value

namespace Raw

variable {members : List (String × Raw)} {tree : Raw}

theorem valuesOf_cons (name other : String) (tree : Raw) (members : List (String × Raw)) :
    valuesOf name ((other, tree) :: members) =
      if other = name then tree :: valuesOf name members else valuesOf name members := by
  by_cases h : other = name <;> simp [valuesOf, h]

theorem valuesOf_append_membersOf {fields : Fields Json} (h : name ∉ fields.names)
    (members : List (String × Raw)) :
    valuesOf name (members ++ membersOf fields) = valuesOf name members := by
  have hn : (membersOf fields).filter (·.1 = name) = [] := by
    apply List.filter_eq_nil_iff.mpr
    intro member hm
    have ⟨field, hf, he⟩ := List.mem_map.mp hm
    have hne : field.1 ≠ name := fun hn => h (hn ▸ List.mem_map_of_mem hf)
    simpa [← he] using hne
  rw [valuesOf, List.filter_append, hn, List.append_nil, ← valuesOf]

theorem member?_append_membersOf {fields : Fields Json} (h : name ∉ fields.names)
    (members : List (String × Raw)) :
    member? name (members ++ membersOf fields) = member? name members := by
  rw [member?, valuesOf_append_membersOf h, ← member?]

theorem required?_append_membersOf {fields : Fields Json} (h : name ∉ fields.names)
    (members : List (String × Raw)) :
    required? name (members ++ membersOf fields) = required? name members := by
  rw [required?, member?_append_membersOf h, ← required?]

-- A second value under the name would be an error.
theorem eq_of_member? {found : Option Raw} (h : member? name members = some found)
    (hv : valuesOf name members = tree :: more) : found = some tree := by
  rw [member?, hv] at h
  cases more
  case nil => exact (Option.some.inj h).symm
  case cons => exact nomatch h

-- Nor can the name be found when it is given among other members once more.
theorem member?_eq_none {more : List (String × Raw)} (hm : name ∈ members.map Prod.fst)
    (ho : name ∈ more.map Prod.fst) : member? name (members ++ more) = none := by
  have hv {part : List (String × Raw)} (h : name ∈ part.map Prod.fst) :
      ∃ tree rest, valuesOf name part = tree :: rest := by
    obtain ⟨member, hp, he⟩ := List.mem_map.mp h
    have hf : member ∈ part.filter (·.1 = name) := List.mem_filter.mpr ⟨hp, by simpa using he⟩
    exact List.exists_cons_of_ne_nil (List.ne_nil_of_mem (List.mem_map_of_mem hf))
  obtain ⟨first, rest, hm⟩ := hv hm
  obtain ⟨second, others, ho⟩ := hv ho
  have ha : valuesOf name (members ++ more) = first :: (rest ++ second :: others) := by
    rw [valuesOf, List.filter_append, List.map_append, ← valuesOf, ← valuesOf, hm, ho,
      List.cons_append]
  rw [member?, ha]
  cases rest <;> rfl

theorem eq_of_required? {found : Raw} (h : required? name members = some found)
    (hv : valuesOf name members = tree :: more) : found = tree := by
  have hm : member? name members = some (some found) := Option.join_eq_some_iff.mp h
  exact Option.some.inj (eq_of_member? hm hv)

end Raw
end Entitlement.Json
