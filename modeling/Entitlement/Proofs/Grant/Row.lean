import Entitlement.Grant.Row
import Entitlement.Proofs.Json.Reader
import Mathlib.Data.List.Forall2
/-!
The row of a grant is read in two ways, from the tree of its words and from its value. The first
reader takes those texts whose value is the one that is made of the grant, and the second one takes
no other texts with the same grant but those in which a number is written as a string.
-/

namespace Entitlement

open Json (FitsWord Raw)

namespace Json

theorem itemsOfRaw?_eq_some {items : List Raw} : itemsOfRaw? depth items = some values ↔
    List.Forall₂ (fun item value => ofRaw? depth item = some value) items values := by
  induction items generalizing values
  case nil => cases values <;> simp [itemsOfRaw?]
  case cons item items hi =>
    cases values
    case nil => simp [itemsOfRaw?, Option.bind_eq_some_iff]
    case cons value values => simp [itemsOfRaw?, Option.bind_eq_some_iff, hi]

theorem ofRaw?_eq_array : ofRaw? (depth + 1) tree = some (.array values) ↔ ∃ items,
    tree = .array items ∧
      List.Forall₂ (fun item value => ofRaw? depth item = some value) items values := by
  cases tree <;> simp [ofRaw?, itemsOfRaw?_eq_some]

theorem ofRaw?_eq_string : ofRaw? depth tree = some (.string text) ↔ tree.text? = some text := by
  cases tree <;> cases depth <;> simp [ofRaw?, Raw.text?]

theorem ofRaw?_eq_integer {fits : FitsWord n} :
    ofRaw? depth tree = some (.ofInt n fits) ↔ tree.integer? = some n := by
  cases tree
  case number numeral =>
    rw [ofRaw?, Raw.integer?, ofInt]
    cases Number.ofNumeral? numeral
    case none => simp
    case some number => cases number <;> simp
  all_goals cases depth <;> simp [ofRaw?, Raw.integer?, ofInt]

end Json

namespace Grant

variable {grant : Grant} {tree : Raw} {value : Json} {n : Int64}

theorem int64OfInt?_eq_some : int64OfInt? i = some n ↔ i = n.toInt := by
  have hl : -0x8000000000000000 ≤ n.toInt := n.le_toInt
  have hg : n.toInt < 0x8000000000000000 := n.toInt_lt
  rw [int64OfInt?]
  constructor
  case mp =>
    intro h
    split at h
    case isTrue hi =>
      cases h
      exact (Int64.toInt_ofInt_of_le hi.1 hi.2).symm
    case isFalse => exact nomatch h
  case mpr =>
    rintro rfl
    rw [if_pos ⟨hl, hg⟩, Int64.ofInt_toInt]

theorem int64?_eq (tree : Raw) : tree.int64? = tree.integer?.bind int64OfInt? := by
  rw [Raw.int64?, Raw.integerIn?]
  cases tree.integer?
  case none => rfl
  case some i =>
    have hi : -0x8000000000000000 ≤ i ∧ i ≤ 0x7FFFFFFFFFFFFFFF ↔
        -0x8000000000000000 ≤ i ∧ i < 0x8000000000000000 := by omega
    simp [int64OfInt?, hi, apply_ite]

theorem int64?_eq_some : tree.int64? = some n ↔
    Json.ofRaw? depth tree = some (toJson.integer n) := by
  rw [toJson.integer, Json.ofRaw?_eq_integer, int64?_eq]
  simp [Option.bind_eq_some_iff, int64OfInt?_eq_some]

theorem rowInt?_eq_some : rowInt? (.number number) = some n ↔ .number number = toJson.integer n := by
  cases number <;> simp [rowInt?, toJson.integer, Json.ofInt, int64OfInt?_eq_some]

theorem rowText?_eq_some : rowText? value = some text ↔ value = .string text := by
  cases value <;> simp [rowText?]

theorem rowField_eq_ok {read : Json → Option α} :
    rowField read expected index value = .ok a ↔ read value = some a := by
  rw [rowField]
  split <;> simp_all

theorem bind_eq_ok {x : Except ε α} {f : α → Except ε β} :
    x >>= f = .ok b ↔ ∃ a, x = .ok a ∧ f a = .ok b := by
  cases x <;> simp [bind, Except.bind]

theorem ofRaw?_array {a b c d e f g : Raw} : ofRaw? (.array [a, b, c, d, e, f, g]) = some grant ↔
    a.int64? = some grant.id ∧ b.int64? = some grant.objectId ∧ c.text? = some grant.objectType ∧
    d.text? = some grant.definition ∧ e.text? = some grant.path ∧ f.int64? = some grant.level ∧
    g.text? = some grant.action := by
  obtain ⟨id, objectId, objectType, definition, path, level, action⟩ := grant
  simp [ofRaw?, Option.bind_eq_some_iff]

theorem ofJson_array {a b c d e f g : Json} : ofJson (.array [a, b, c, d, e, f, g]) = .ok grant ↔
    rowInt? a = some grant.id ∧ rowInt? b = some grant.objectId ∧
    rowText? c = some grant.objectType ∧ rowText? d = some grant.definition ∧
    rowText? e = some grant.path ∧ rowInt? f = some grant.level ∧
    rowText? g = some grant.action := by
  obtain ⟨id, objectId, objectType, definition, path, level, action⟩ := grant
  simp [ofJson, ofFields, bind_eq_ok, rowField_eq_ok, pure, Except.pure]

-- The first reader takes just the trees whose value is the one of the grant.
theorem ofRaw?_eq_some : ofRaw? tree = some grant ↔
    Json.ofRaw? (depth + 1) tree = some grant.toJson := by
  rw [toJson, Json.ofRaw?_eq_array]
  constructor
  case mp =>
    intro h
    match tree with
    | .array [a, b, c, d, e, f, g] =>
      refine ⟨[a, b, c, d, e, f, g], rfl, ?_⟩
      simpa [← int64?_eq_some, Json.ofRaw?_eq_string] using ofRaw?_array.mp h
  case mpr =>
    rintro ⟨items, rfl, h⟩
    match items, h with
    | [_, _, _, _, _, _, _],
      .cons ha (.cons hb (.cons hc (.cons hd (.cons he (.cons hf (.cons hg .nil)))))) =>
      rw [← int64?_eq_some] at ha hb hf
      rw [Json.ofRaw?_eq_string] at hc hd he hg
      exact ofRaw?_array.mpr ⟨ha, hb, hc, hd, he, hf, hg⟩

-- The fields of a row that stand for numbers are written as such.
def Numeric (value : Json) : Prop :=
  ∃ fields, value = .array fields ∧
    ∀ index ∈ [0, 1, 5], ∃ number, fields[index]? = some (.number number)

theorem numeric_toJson (grant : Grant) : Numeric grant.toJson :=
  ⟨_, rfl, by simp [toJson.integer, Json.ofInt]⟩

theorem ofJson_toJson (grant : Grant) : ofJson grant.toJson = .ok grant := by
  have hi (n : Int64) : rowInt? (toJson.integer n) = some n := rowInt?_eq_some.mpr rfl
  exact ofJson_array.mpr ⟨hi _, hi _, rfl, rfl, rfl, hi _, rfl⟩

-- Among the values with numbers in their places the second reader takes just that of the grant.
theorem eq_toJson_of_ofJson (h : ofJson value = .ok grant) (hn : Numeric value) :
    value = grant.toJson := by
  obtain ⟨fields, rfl, hn⟩ := hn
  match fields with
  | [a, b, c, d, e, f, g] =>
    have ⟨ha, hb, hc, hd, he, hf, hg⟩ := ofJson_array.mp h
    obtain ⟨⟨i, rfl⟩, ⟨j, rfl⟩, ⟨k, rfl⟩⟩ :
        (∃ i, a = .number i) ∧ (∃ j, b = .number j) ∧ ∃ k, f = .number k := by simpa using hn
    rw [toJson, ← rowInt?_eq_some.mp ha, ← rowInt?_eq_some.mp hb, ← rowInt?_eq_some.mp hf,
      ← rowText?_eq_some.mp hc, ← rowText?_eq_some.mp hd, ← rowText?_eq_some.mp he,
      ← rowText?_eq_some.mp hg]

theorem ofRaw?_toRaw (grant : Grant) : ofRaw? grant.toRaw = some grant := by
  simp only [toRaw, toRaw.integer, ofRaw?, Raw.int64?_wholeNumeral, Raw.text?_ofText]
  rfl

theorem writable_toRaw (grant : Grant) : grant.toRaw.Writable := by
  have hi : ∀ n : Int64, (toRaw.integer n).Writable := fun n => Raw.writable_wholeNumeral n.toInt
  have ht := Raw.writable_ofText
  exact ⟨hi _, hi _, ht _, ht _, ht _, hi _, ht _, trivial⟩

theorem ofText?_eq_some : ofText? text = some grant ↔ Json.parse? text = some grant.toJson := by
  have ht : ∀ tree, ofRaw? tree = some grant ↔
      Json.ofRaw? Json.maxDepth tree = some grant.toJson := fun _ => ofRaw?_eq_some
  simp only [ofText?, Json.parse?, Option.bind_eq_some_iff, ht]

theorem ofText?_written (grant : Grant) : ofText? grant.written = some grant := by
  rw [ofText?, written, String.toList_ofList, Raw.parse?_compact grant.writable_toRaw]
  exact grant.ofRaw?_toRaw

-- The two readers agree on every text in which the numbers are written as such, and on the texts that
-- are written for grants.
theorem ofText?_iff_ofJson (grant : Grant) :
    (∀ text, ofText? text = some grant ↔
      ∃ value, Json.parse? text = some value ∧ ofJson value = .ok grant ∧ Numeric value) ∧
    ofText? grant.written = some grant ∧ Json.parse? grant.written = some grant.toJson ∧
    ofJson grant.toJson = .ok grant := by
  refine ⟨fun text => ?_, grant.ofText?_written, ofText?_eq_some.mp grant.ofText?_written,
    grant.ofJson_toJson⟩
  rw [ofText?_eq_some]
  constructor
  case mp => exact fun h => ⟨_, h, grant.ofJson_toJson, grant.numeric_toJson⟩
  case mpr =>
    intro ⟨value, hv, ho, hn⟩
    rw [hv, eq_toJson_of_ofJson ho hn]

-- A number that is written as a string is left to the second reader.
example : ofText? "[1,\"2\",\"ssh\",\"Svc\",\"a\",3,\"*\"]" = none ∧
    (Json.parse? "[1,\"2\",\"ssh\",\"Svc\",\"a\",3,\"*\"]").bind (ofJson · |>.toOption) =
      some ⟨1, 2, "ssh", "Svc", "a", 3, "*"⟩ := by
  decide +kernel

end Grant
end Entitlement
