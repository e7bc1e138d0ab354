import Entitlement.Session.Key
import Mathlib.Data.String.Basic
/-!
When two keys are the same. Among themselves the keys of records, and those of indices, tell the
tokens and the users apart; but the index of a user has the key of a token too.
-/

namespace Entitlement.Key

variable {t other user : String}

-- Not spelled as the key of an index.
def Plain (t : String) : Prop :=
  ∀ user, t ≠ "index:" ++ user

theorem plain_iff : Plain t ↔ ¬"index:".toList <+: t.toList := by
  constructor
  case mp => exact fun h ⟨rest, hr⟩ => h (String.ofList rest) (by simp [← String.toList_inj, ← hr])
  case mpr =>
    rintro h user rfl
    exact h ⟨user.toList, by simp⟩

instance : Decidable (Plain t) :=
  decidable_of_iff' _ plain_iff

theorem record_inj : record t = record other ↔ t = other := by
  simp [record, ← String.toList_inj]

theorem index_inj : index user = index other ↔ user = other := by
  simp [index, ← String.toList_inj]

theorem index_eq_record (user : String) : index user = record ("index:" ++ user) := by
  rw [index, record, ← String.append_assoc]
  rfl

theorem record_eq_index : record t = index user ↔ t = "index:" ++ user := by
  rw [index_eq_record, record_inj]

theorem Plain.apart (h : Plain t) (user : String) : index user ≠ record t :=
  fun he => h user (record_eq_index.mp he.symm)

theorem isPrefixOf_iff {before text : String} :
    before.isPrefixOf text ↔ before.toList <+: text.toList := by
  rw [String.isPrefixOf, String.startsWith_string_iff]

theorem isPrefixOf_start {key : String} : start.isPrefixOf key ↔ ∃ t, key = record t := by
  rw [isPrefixOf_iff]
  constructor
  case mp =>
    intro ⟨rest, hr⟩
    exact ⟨String.ofList rest, by simp [record, ← String.toList_inj, hr]⟩
  case mpr =>
    rintro ⟨t, rfl⟩
    exact ⟨t.toList, by simp [record]⟩

theorem isIndex_record : isIndex (record t) ↔ ¬Plain t := by
  have hs : indexStart.toList = start.toList ++ "index:".toList := by decide
  rw [isIndex, isPrefixOf_iff, plain_iff, not_not, record, String.toList_append, hs,
    List.prefix_append_right_inj]

theorem token_record (t : String) : token (record t) = t := by
  rw [token, if_pos (isPrefixOf_start.mpr ⟨t, rfl⟩), record, String.toList_append,
    ← String.length_toList, List.drop_left, String.ofList_toList]

-- Keys are in the order of their tokens.
theorem record_lt : record t < record other ↔ t < other := by
  have append_lt (before first second : List Char) :
      before ++ first < before ++ second ↔ first < second := by
    induction before
    case nil => rfl
    case cons hi => simp [hi]
  simp only [String.lt_iff_toList_lt, record, String.toList_append, append_lt]

end Entitlement.Key
