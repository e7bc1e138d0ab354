import Entitlement.Base64
import Entitlement.Text.Blank
import Mathlib.Tactic.Common
/-!
Base64 reads back what it writes: the letters of a group of bytes are the digits of one number, and
the padding leaves no bits over.
-/

namespace Entitlement.Base64

theorem value?_letter (h : n < 64) : value? (letter n) = some n := by
  decide +revert

theorem letter_ne_padding (h : n < 64) : letter n ≠ '=' := by
  decide +revert

theorem decodeLast?_one (a : UInt8) :
    decodeLast? (letter (a.toNat * 0x10 / 0x40)) (letter (a.toNat * 0x10 % 0x40)) '=' = some [a] := by
  have ha := a.toNat_lt
  rw [decodeLast?, value?_letter (by omega), value?_letter (by omega)]
  have hn : a.toNat * 0x10 / 0x40 * 0x40 + a.toNat * 0x10 % 0x40 = a.toNat * 0x10 := by omega
  simp [hn]

theorem decodeLast?_two (a b : UInt8) :
    let n := (a.toNat * 0x100 + b.toNat) * 0x4
    decodeLast? (letter (n / 0x1000)) (letter (n / 0x40 % 0x40)) (letter (n % 0x40)) =
      some [a, b] := by
  intro n
  have ha := a.toNat_lt
  have hb := b.toNat_lt
  have hp : letter (n % 0x40) ≠ '=' := letter_ne_padding (by omega)
  rw [decodeLast?.eq_2 _ _ _ hp, value?_letter (by omega), value?_letter (by omega),
    value?_letter (by omega)]
  have hn : (n / 0x1000 * 0x40 + n / 0x40 % 0x40) * 0x40 + n % 0x40 = n := by omega
  have h₁ : n / 0x400 = a.toNat := by omega
  have h₂ : n / 0x4 % 0x100 = b.toNat := by omega
  simp [hn, h₁, h₂]
  omega

theorem go_encode (decoded bytes : List UInt8) :
    decode?.go decoded (encode bytes) = some (decoded.reverse ++ bytes) := by
  fun_induction encode bytes generalizing decoded
  case case1 => simp [decode?.go]
  case case2 a n => rw [decode?.go, decodeLast?_one]; rfl
  case case3 a b n => rw [decode?.go, decodeLast?_two]; rfl
  case case4 a b c rest n hi =>
    have ha := a.toNat_lt
    have hb := b.toNat_lt
    have hc := c.toNat_lt
    have hp : letter (n % 0x40) ≠ '=' := letter_ne_padding (by omega)
    rw [decode?.go, value?_letter (by omega), value?_letter (by omega), value?_letter (by omega),
      value?_letter (by omega)]
    case x_1 => exact fun hs _ => hp hs
    have hn : ((n / 0x40000 * 0x40 + n / 0x1000 % 0x40) * 0x40 + n / 0x40 % 0x40) * 0x40 +
      n % 0x40 = n := by omega
    have h₁ : n / 0x10000 = a.toNat := by omega
    have h₂ : n / 0x100 % 0x100 = b.toNat := by omega
    have h₃ : n % 0x100 = c.toNat := by omega
    simp [hn, h₁, h₂, h₃, hi]

theorem decode?_encode (bytes : List UInt8) : decode? (encode bytes) = some bytes :=
  go_encode [] bytes

theorem letter_not_blank (h : n < 64) : ¬Text.isBlank (letter n) := by
  decide +revert

theorem encode_not_blank (bytes : List UInt8) : ∀ c ∈ encode bytes, ¬Text.isBlank c := by
  fun_induction encode bytes
  case case1 => simp
  case case2 a n =>
    have ha := a.toNat_lt
    simp only [List.forall_mem_cons]
    exact ⟨letter_not_blank (by omega), letter_not_blank (by omega), by decide, by decide, by simp⟩
  case case3 a b n =>
    have ha := a.toNat_lt
    have hb := b.toNat_lt
    simp only [List.forall_mem_cons]
    exact ⟨letter_not_blank (by omega), letter_not_blank (by omega), letter_not_blank (by omega),
      by decide, by simp⟩
  case case4 a b c rest n hi =>
    have ha := a.toNat_lt
    have hb := b.toNat_lt
    have hc := c.toNat_lt
    simp only [List.forall_mem_cons]
    exact ⟨letter_not_blank (by omega), letter_not_blank (by omega), letter_not_blank (by omega),
      letter_not_blank (by omega), hi⟩

end Entitlement.Base64
