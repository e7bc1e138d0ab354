import Entitlement.Zlib.Bits
import Mathlib.Data.Nat.Bitwise
import Mathlib.Tactic.Common
/-!
A bit reader stands for the bits that it has left. What is read off such a list is said without the
reader: a number is a field of bits, and parts are read one after another.
-/

namespace Entitlement.Zlib

variable {bytes block : List UInt8} {bits : Bits}

-- The lowest bit first.
def field (width n : Nat) : List Bool :=
  (List.range width).map n.testBit

def bitsOf (bytes : List UInt8) : List Bool :=
  bytes.flatMap Bits.ofByte

theorem length_field (width n : Nat) : (field width n).length = width := by
  rw [field, List.length_map, List.length_range]

theorem field_succ (width n : Nat) :
    field (width + 1) n = n.testBit 0 :: field width (n / 2) := by
  simp only [field, List.range_succ_eq_map, List.map_cons, List.map_map]
  congr 2
  funext i
  exact (Nat.testBit_div_two n i).symm

theorem field_inj (hm : m < 2 ^ width) (hn : n < 2 ^ width) (h : field width m = field width n) :
    m = n := by
  apply Nat.eq_of_testBit_eq
  intro i
  by_cases hi : i < width
  case pos => exact List.map_inj_left.mp h i (List.mem_range.mpr hi)
  case neg =>
    have hp : 2 ^ width ≤ 2 ^ i := Nat.pow_le_pow_right (by decide) (by omega)
    rw [Nat.testBit_lt_two_pow (hm.trans_le hp), Nat.testBit_lt_two_pow (hn.trans_le hp)]

namespace Bits

theorem length_ofByte (byte : UInt8) : (ofByte byte).length = 8 :=
  length_field 8 byte.toNat

theorem ofByte_inj {byte other : UInt8} (h : ofByte byte = ofByte other) : byte = other :=
  UInt8.toNat_inj.mp (field_inj byte.toNat_lt other.toNat_lt h)

end Bits

theorem bitsOf_append (bytes rest : List UInt8) :
    bitsOf (bytes ++ rest) = bitsOf bytes ++ bitsOf rest :=
  List.flatMap_append

theorem length_bitsOf (bytes : List UInt8) : (bitsOf bytes).length = 8 * bytes.length := by
  induction bytes
  case nil => rfl
  case cons byte bytes hi =>
    rw [bitsOf, List.flatMap_cons, List.length_append, Bits.length_ofByte, List.length_cons]
    rw [bitsOf] at hi
    omega

-- Bits that begin with whole bytes come from those bytes.
theorem exists_of_bitsOf_eq (h : bitsOf bytes = bitsOf block ++ more) :
    ∃ rest, bytes = block ++ rest ∧ bitsOf rest = more := by
  induction block generalizing bytes
  case nil => exact ⟨bytes, rfl, h⟩
  case cons byte block hi =>
    match bytes with
    | [] =>
      have hl := congrArg List.length h
      simp only [length_bitsOf, List.length_append, List.length_cons, List.length_nil] at hl
      omega
    | other :: bytes =>
      simp only [bitsOf, List.flatMap_cons, List.append_assoc] at h
      have ⟨hb, h⟩ := List.append_inj h (by rw [Bits.length_ofByte, Bits.length_ofByte])
      have ⟨rest, hr, hm⟩ := hi h
      exact ⟨rest, by rw [hr, Bits.ofByte_inj hb]; rfl, hm⟩

namespace Bits

-- The bits that are left. Less than a byte was begun.
structure Holds (bits : Bits) (left : List Bool) : Prop where
  begun : bits.held.length < 8
  eq : bits.held ++ bitsOf bits.bytes = left

theorem holds_ofBytes (bytes : List UInt8) : (ofBytes bytes).Holds (bitsOf bytes) :=
  ⟨by simp [ofBytes], rfl⟩

theorem Holds.size_eq (h : bits.Holds left) : bits.size = left.length := by
  rw [← h.eq, List.length_append, length_bitsOf, size]

theorem Holds.next? (h : bits.Holds (bit :: more)) :
    ∃ rest, bits.next? = some (bit, rest) ∧ rest.Holds more := by
  have ⟨hb, he⟩ := h
  match bits with
  | ⟨first :: held, bytes⟩ =>
    have ⟨hf, hm⟩ := List.cons.inj he
    subst hf
    exact ⟨⟨held, bytes⟩, rfl, Nat.lt_of_succ_lt hb, hm⟩
  | ⟨[], []⟩ => cases he
  | ⟨[], byte :: bytes⟩ =>
    have ⟨hf, hm⟩ := List.cons.inj he
    subst hf
    exact ⟨⟨(ofByte byte).tail, bytes⟩, rfl, Nat.lt_succ_self 7, hm⟩

-- To align is to pass over less than a byte.
theorem Holds.aligned (h : bits.Holds (pad ++ (bitsOf block ++ more))) (hp : pad.length < 8)
    (hm : more.length % 8 = 0) :
    ∃ rest, bits.aligned = block ++ rest ∧ bitsOf rest = more := by
  have ⟨hb, he⟩ := h
  have hl := congrArg List.length he
  simp only [List.length_append, length_bitsOf] at hl
  have ⟨_, he⟩ := List.append_inj he (by omega)
  exact exists_of_bitsOf_eq he

theorem Holds.aligned_eq (h : bits.Holds (pad ++ bitsOf bytes)) (hp : pad.length < 8) :
    bits.aligned = bytes := by
  rw [← List.append_nil (bitsOf bytes)] at h
  have ⟨rest, hr, he⟩ := h.aligned hp (Nat.zero_mod 8)
  have hl := length_bitsOf rest
  rw [he, List.length_nil] at hl
  have hn : rest = [] := List.eq_nil_of_length_eq_zero (by omega)
  rw [hr, hn, List.append_nil]

-- `read` takes just the bits `taken` off the front and makes `a` of them.
def Reads (read : Bits → Option (α × Bits)) (taken : List Bool) (a : α) : Prop :=
  ∀ bits more, bits.Holds (taken ++ more) → ∃ rest, read bits = some (a, rest) ∧ rest.Holds more

theorem Reads.pure (a : α) : Reads (fun bits => some (a, bits)) [] a :=
  fun bits _ h => ⟨bits, rfl, h⟩

theorem Reads.bind {read : Bits → Option (α × Bits)} (h : Reads read taken a)
    (next : α → Bits → Option (β × Bits)) (hn : Reads (next a) more b) :
    Reads (fun bits => (read bits).bind fun first => next first.1 first.2) (taken ++ more) b := by
  intro bits after hb
  rw [List.append_assoc] at hb
  have ⟨middle, hr, hb⟩ := h bits _ hb
  have ⟨rest, hn, hb⟩ := hn middle after hb
  exact ⟨rest, by simp only [hr, Option.bind_some, hn], hb⟩

theorem Reads.map {read : Bits → Option (α × Bits)} (f : α → β) (h : Reads read taken a) :
    Reads (fun bits => (read bits).bind fun first => some (f first.1, first.2)) taken (f a) := by
  have h := h.bind (fun a bits => some (f a, bits)) (.pure (f a))
  rwa [List.append_nil] at h

theorem reads_next? (bit : Bool) : Reads next? [bit] bit :=
  fun _ _ h => h.next?

theorem reads_number? (h : n < 2 ^ width) : Reads (number? width) (field width n) n := by
  induction width generalizing n
  case zero =>
    cases Nat.lt_one_iff.mp h
    exact Reads.pure 0
  case succ width hi =>
    have hh : n / 2 < 2 ^ width := by
      rw [Nat.pow_succ] at h
      omega
    have hn : (n.testBit 0).toNat + 2 * (n / 2) = n := by
      rw [Nat.toNat_testBit]
      omega
    have hr := (reads_next? (n.testBit 0)).bind
      (fun bit bits => (number? width bits).bind fun half => some (bit.toNat + 2 * half.1, half.2))
      ((hi hh).map fun half => (n.testBit 0).toNat + 2 * half)
    rw [hn] at hr
    rw [field_succ]
    exact hr

end Bits
end Entitlement.Zlib
