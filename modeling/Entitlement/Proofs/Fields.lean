import Entitlement.Fields
import Mathlib.Data.List.Induction
import Mathlib.Data.List.Sort
/-!
What an insertion, a list of entries and a change of the values do to the names and the values of
fields, and that fields are known by what is found under their names.
-/

namespace Entitlement.Fields

variable {α : Type u} {β : Type v} {fields : Fields α} {entries : List (String × α)}

theorem ascending_nil : Ascending ([] : Fields α) :=
  List.Pairwise.nil

theorem mem_names_insert : other ∈ (fields.insert name value).names ↔
    other = name ∨ other ∈ fields.names := by
  fun_induction insert name value fields
  case case1 => simp [names]
  case case2 => simp [names]
  case case3 => simp [names]
  case case4 n a rest _ _ hi => simp_all [names]; grind

theorem ofList_append (entry : String × α) :
    ofList (entries ++ [entry]) = (ofList entries).insert entry.1 entry.2 := by
  simp [ofList]

theorem mem_of_mem_ofList (h : entry ∈ ofList entries) : entry ∈ entries := by
  induction entries using List.reverseRecOn
  case nil => exact h
  case append_singleton entries last hi =>
    rw [ofList_append] at h
    cases mem_insert h
    case inl h => simp [h]
    case inr h => exact List.mem_append_left _ (hi h)

theorem mem_names_ofList : name ∈ (ofList entries).names ↔ name ∈ entries.map Prod.fst := by
  induction entries using List.reverseRecOn
  case nil => rfl
  case append_singleton entries last hi =>
    rw [ofList_append, mem_names_insert, hi]
    simp [or_comm]

-- Where the names determine the values, no entry is replaced by another one.
theorem mem_ofList (h : ∀ a ∈ entries, ∀ b ∈ entries, a.1 = b.1 → a = b) :
    entry ∈ ofList entries ↔ entry ∈ entries := by
  refine ⟨mem_of_mem_ofList, fun hm => ?_⟩
  have hn : entry.1 ∈ (ofList entries).names := mem_names_ofList.mpr (List.mem_map_of_mem hm)
  obtain ⟨other, ho, he⟩ := List.mem_map.mp hn
  exact h other (mem_of_mem_ofList ho) entry hm he ▸ ho

theorem mem_of_find? (h : fields.find? name = some value) : (name, value) ∈ fields := by
  induction fields
  case nil => simp [find?] at h
  case cons field rest hi =>
    rw [find?] at h
    split at h
    case isTrue hn => exact hn ▸ Option.some.inj h ▸ List.mem_cons_self
    case isFalse => exact List.mem_cons_of_mem _ (hi h)

theorem find?_of_mem (h : fields.Ascending) (hm : (name, value) ∈ fields) :
    fields.find? name = some value := by
  induction fields
  case nil => exact nomatch hm
  case cons field rest hi =>
    have ⟨hf, hr⟩ := List.pairwise_cons.mp h
    rw [find?]
    cases hm
    case head => rw [if_pos rfl]
    case tail hm =>
      have hn : name ≠ field.1 := fun he => String.lt_irrefl _ (he ▸ hf _ hm)
      rw [if_neg hn]
      exact hi hr hm

theorem mem_iff_find? (h : fields.Ascending) :
    (name, value) ∈ fields ↔ fields.find? name = some value :=
  ⟨find?_of_mem h, mem_of_find?⟩

theorem find?_filter (h : fields.Ascending) (p : String × α → Bool) (name : String) :
    find? name (fields.filter p) = (fields.find? name).filter fun value => p (name, value) := by
  ext value
  have hf : Ascending (fields.filter p) := h.filter _
  rw [← mem_iff_find? hf, List.mem_filter, mem_iff_find? h, Option.filter_eq_some_iff]

theorem Ascending.eq_of_name_eq (h : fields.Ascending) (ha : a ∈ fields) (hb : b ∈ fields)
    (hn : a.1 = b.1) : a = b := by
  have hf : fields.find? a.1 = some a.2 := find?_of_mem h ha
  rw [hn, find?_of_mem h hb] at hf
  exact Prod.ext hn (Option.some.inj hf).symm

theorem Ascending.eq_of_mem_iff {other : Fields α} (h : fields.Ascending) (ho : other.Ascending)
    (hm : ∀ field, field ∈ fields ↔ field ∈ other) : fields = other := by
  have irrefl : Std.Irrefl fun a b : String × α => a.1 < b.1 := ⟨fun a => String.lt_irrefl a.1⟩
  have antisymm : Std.Antisymm fun a b : String × α => a.1 < b.1 :=
    ⟨fun _ _ hl hg => absurd hg (String.lt_asymm hl)⟩
  exact List.Pairwise.eq_of_mem_iff h ho hm

theorem Ascending.ext {other : Fields α} (h : fields.Ascending) (ho : other.Ascending)
    (hf : ∀ name, fields.find? name = other.find? name) : fields = other :=
  h.eq_of_mem_iff ho fun (name, value) => by rw [mem_iff_find? h, mem_iff_find? ho, hf]

-- Fields come out the same from any order of their entries.
theorem ofList_of_perm (h : fields.Ascending) (hp : entries.Perm fields) :
    ofList entries = fields := by
  have hn : ∀ a ∈ entries, ∀ b ∈ entries, a.1 = b.1 → a = b := fun a ha b hb =>
    h.eq_of_name_eq (hp.mem_iff.mp ha) (hp.mem_iff.mp hb)
  exact (ofList_ascending entries).eq_of_mem_iff h fun _ => (mem_ofList hn).trans hp.mem_iff

theorem find?_eq_none : fields.find? name = none ↔ name ∉ fields.names := by
  induction fields
  case nil => simp [find?, names]
  case cons field rest hi =>
    rw [find?]
    split <;> simp_all [names]

theorem find?_map (f : α → β) : find? name (fields.map fun field => (field.1, f field.2)) =
    (fields.find? name).map f := by
  induction fields
  case nil => rfl
  case cons field rest hi =>
    rw [List.map_cons, find?, find?]
    split
    · rfl
    · exact hi

-- Where all other fields come to nothing, only the one that is found counts.
theorem flatMap_eq_of_find? {f : String × α → List β} (h : fields.Ascending)
    (hf : fields.find? name = some value) (hn : ∀ field ∈ fields, field.1 ≠ name → f field = []) :
    fields.flatMap f = f (name, value) := by
  induction fields
  case nil => exact nomatch hf
  case cons field rest hi =>
    have ⟨hl, hr⟩ := List.pairwise_cons.mp h
    have ⟨hn, ho⟩ := List.forall_mem_cons.mp hn
    rw [List.flatMap_cons]
    rw [find?] at hf
    split at hf
    case isTrue he =>
      have hz : rest.flatMap f = [] := by
        refine List.flatMap_eq_nil_iff.mpr fun other hm => ho other hm fun hs => ?_
        exact String.lt_irrefl _ (hs.trans he ▸ hl other hm)
      rw [hz, List.append_nil, he, ← Option.some.inj hf]
    case isFalse he => rw [hn (Ne.symm he), List.nil_append, hi hr hf ho]

end Entitlement.Fields
