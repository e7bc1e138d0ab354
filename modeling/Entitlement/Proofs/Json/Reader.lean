import Entitlement.Json.Reader
import Entitlement.Proofs.Json.Raw
/-!
Each typed value is read from the tree that is written for it.
-/

namespace Entitlement.Json

open Number (wholeNumeral)

theorem textOf?_rawText (text : String) : textOf? (rawText text) = some text := by
  simp [textOf?, rawText, Escape.decode?_encode]

namespace Number

theorem value_wholeNumeral (n : Int) :
    (if (wholeNumeral n).negative then -(Nat.ofDigitChars 10 (wholeNumeral n).whole 0 : Int)
      else Nat.ofDigitChars 10 (wholeNumeral n).whole 0) = n := by
  simp only [wholeNumeral, Nat.ofDigitChars_ten_toDigits, decide_eq_true_eq]
  split <;> omega

theorem integer?_wholeNumeral (h : FitsWord n) : integer? (wholeNumeral n) = some (.integer n h) := by
  have hz : ¬((wholeNumeral n).negative && decide (n = 0)) := by simp [wholeNumeral]; omega
  simp only [integer?, value_wholeNumeral, dif_pos h]
  exact if_neg (by simpa [wholeNumeral] using hz)

theorem ofNumeral?_wholeNumeral (h : FitsWord n) :
    ofNumeral? (wholeNumeral n) = some (.integer n h) := by
  rw [ofNumeral?, integer?_wholeNumeral h]
  rfl

end Number

namespace Raw

theorem integerIn?_wholeNumeral (h : FitsWord n) (hl : least ≤ n) (hg : n ≤ greatest) :
    integerIn? least greatest (.number (wholeNumeral n)) = some n := by
  simp [integerIn?, integer?, Number.ofNumeral?_wholeNumeral h, hl, hg]

theorem int64?_wholeNumeral (n : Int64) : int64? (.number (wholeNumeral n.toInt)) = some n := by
  have hl : -0x8000000000000000 ≤ n.toInt := n.le_toInt
  have hg : n.toInt < 0x8000000000000000 := n.toInt_lt
  rw [int64?, integerIn?_wholeNumeral ⟨hl, by omega⟩ hl (by omega)]
  simp

theorem uint64?_word (n : UInt64) : uint64? (word n) = some n := by
  have hl := n.toNat_lt
  rw [uint64?, word, integerIn?_wholeNumeral ⟨by omega, by omega⟩ (by omega) (by omega)]
  simp

theorem orNull?_word (read : Raw → Option α) (n : UInt64) :
    orNull? read (word n) = (read (word n)).map some :=
  rfl

theorem byte?_wholeNumeral (n : UInt8) : byte? (.number (wholeNumeral n.toNat)) = some n := by
  have hl := n.toNat_lt
  rw [byte?, integerIn?_wholeNumeral ⟨by omega, by omega⟩ (by omega) (by omega)]
  simp

theorem text?_ofText (text : String) : (ofText text).text? = some text :=
  textOf?_rawText text

-- Items are read one by one as they were written.
theorem mapM_map {β : Type u} {read : β → Option α} {write : α → β} {items : List α}
    (h : ∀ item ∈ items, read (write item) = some item) :
    (items.map write).mapM read = some items := by
  induction items
  case nil => rfl
  case cons item items hi =>
    have ⟨hw, hr⟩ := List.forall_mem_cons.mp h
    simp only [List.map_cons, List.mapM_cons, hw, hi hr]
    rfl

theorem exists_of_mem_mapM {β : Type u} {read : β → Option α} {items : List β} {values : List α}
    (h : items.mapM read = some values) (hv : a ∈ values) :
    ∃ item ∈ items, read item = some a := by
  induction items generalizing values
  case nil =>
    cases h
    exact nomatch hv
  case cons item items hi =>
    rw [List.mapM_cons] at h
    simp only [Option.bind_eq_bind, Option.bind_eq_some_iff] at h
    obtain ⟨first, hf, rest, hr, ⟨⟩⟩ := h
    cases hv
    case head => exact ⟨item, List.mem_cons_self, hf⟩
    case tail hm =>
      have ⟨other, ho, he⟩ := hi hr hm
      exact ⟨other, List.mem_cons_of_mem _ ho, he⟩

theorem list?_map {read : Raw → Option α} {write : α → Raw} (h : ∀ a, read (write a) = some a)
    (items : List α) : list? read (.array (items.map write)) = some items :=
  mapM_map fun item _ => h item

-- Members as they are written, by the texts of their names.
def ofNamed (members : List (String × Raw)) : List (List Char × Raw) :=
  members.map fun (name, tree) => named name tree

theorem named?_ofNamed (members : List (String × Raw)) : named? (ofNamed members) = some members := by
  induction members
  case nil => rfl
  case cons member members hi =>
    have ⟨name, tree⟩ := member
    rw [ofNamed, List.map_cons, ← ofNamed]
    simp only [named, named?, textOf?_rawText, hi]
    rfl

theorem writable_ofText (text : String) : (ofText text).Writable :=
  ⟨text.toList, rfl⟩

theorem writable_wholeNumeral (n : Int) : (number (wholeNumeral n)).Writable :=
  Numeral.wellFormed_wholeNumeral n

theorem itemsWritable_iff : ItemsWritable items ↔ ∀ item ∈ items, item.Writable := by
  induction items
  case nil => simp [ItemsWritable]
  case cons item items hi => simp [ItemsWritable, hi]

theorem membersWritable_ofNamed (h : ∀ member ∈ members, member.2.Writable) :
    MembersWritable (ofNamed members) := by
  induction members
  case nil => trivial
  case cons member members hi =>
    have ⟨ht, hm⟩ := List.forall_mem_cons.mp h
    exact ⟨⟨member.1.toList, rfl⟩, ht, hi hm⟩

end Raw
end Entitlement.Json
