import Entitlement.Proofs.Decimal.Shortest
import Entitlement.Proofs.Json.Numeral
/-!
Every number is written as a numeral that no part is missing of, in the positional form as well as
with a power of ten.
-/

namespace Entitlement

open Json (Numeral Exponent)
open Json.Numeral (Digits)

-- The digits of a number other than zero, the first of which is not zero.
structure Decimal.Significant (ds : List Char) : Prop where
  digits : Digits ds
  leading : ds.head? ≠ some '0'

theorem Decimal.significant_scientific {d : Decimal} (h : 0 < d.digits) :
    Significant d.scientific.1 := by
  have hd : Digits (Nat.toDigits 10 d.digits) := Numeral.digits_toDigits _
  have hz : (Nat.toDigits 10 d.digits).head? ≠ some '0' := Numeral.head?_toDigits_ne h
  rw [scientific]
  generalize Nat.toDigits 10 d.digits = ds at hd hz
  -- what is left after the zeros at the end is a beginning of the digits
  have ⟨c, cs, hc, _⟩ := hd.head_isDigit
  have hn : c ≠ '0' := fun he => hz (hc ▸ he ▸ rfl)
  have hl : ∃ front, (ds.reverse.dropWhile (· = '0')).reverse = c :: front := by
    rw [hc, List.reverse_cons, List.dropWhile_append]
    split
    · exact ⟨[], by simp [hn]⟩
    · exact ⟨_, by rw [List.reverse_append, List.reverse_singleton, List.singleton_append]⟩
  have ⟨front, hf⟩ := hl
  refine ⟨⟨by simp [hf], fun x hx => ?_⟩, by simpa [hf] using hn⟩
  have hs : x ∈ ds.reverse := List.dropWhile_subset _ (List.mem_reverse.mp hx)
  exact hd.isDigit x (List.mem_reverse.mp hs)

namespace Json

variable {ds : List Char}

theorem Numeral.digits_zero : Digits ['0'] :=
  ⟨List.cons_ne_nil _ _, List.forall_mem_singleton.mpr rfl⟩

theorem Numeral.Digits.append_zeros (h : Digits ds) (n : Nat) : Digits (ds ++ List.replicate n '0') where
  ne_nil := List.append_ne_nil_of_left_ne_nil h.ne_nil _
  isDigit c hc := by
    rcases List.mem_append.mp hc with hc | hc
    · exact h.isDigit c hc
    · exact List.eq_of_mem_replicate hc ▸ by decide

theorem Numeral.Digits.of_sublist {part : List Char} (h : Digits ds) (hp : part.Sublist ds)
    (hn : part ≠ []) : Digits part where
  ne_nil := hn
  isDigit c hc := h.isDigit c (hp.subset hc)

namespace Number

open Decimal (Significant)

theorem wellFormed_positional (h : Significant ds) (negative : Bool) (k : Int) :
    (positional negative ds k).WellFormed := by
  rw [positional]
  split
  case isTrue =>
    refine ⟨Numeral.digits_zero, fun _ => rfl, ?_, nofun⟩
    rintro _ ⟨⟩
    refine ⟨List.append_ne_nil_of_right_ne_nil _ h.digits.ne_nil, fun c hc => ?_⟩
    rcases List.mem_append.mp hc with hc | hc
    · exact List.eq_of_mem_replicate hc ▸ by decide
    · exact h.digits.isDigit c hc
  case isFalse =>
    have ⟨c, cs, hc, _⟩ := h.digits.head_isDigit
    have hz : c ≠ '0' := fun he => h.leading (hc ▸ he ▸ rfl)
    have hp := h.digits.append_zeros (k.natAbs + 1 + 1 - ds.length)
    have hl : k.natAbs + 1 < (ds ++ List.replicate (k.natAbs + 1 + 1 - ds.length) '0').length := by
      rw [List.length_append, List.length_replicate]
      omega
    have hh : (ds ++ List.replicate (k.natAbs + 1 + 1 - ds.length) '0').head? = some c := by
      rw [hc]
      rfl
    dsimp only
    generalize ds ++ List.replicate (k.natAbs + 1 + 1 - ds.length) '0' = padded at hp hl hh
    refine ⟨hp.of_sublist (List.take_sublist ..) ?_, fun ht => ?_, ?_, nofun⟩
    · simpa using hp.ne_nil
    · rw [List.head?_take, if_neg (by simp), hh] at ht
      exact absurd (Option.some.inj ht) hz
    · rintro _ ⟨⟩
      exact hp.of_sublist (List.drop_sublist ..) (List.ne_nil_of_length_pos (by simp; omega))

theorem wellFormed_withPower (h : Significant ds) (negative : Bool) (k : Int) :
    (withPower negative ds k).WellFormed := by
  have ⟨c, cs, hc, hd⟩ := h.digits.head_isDigit
  have hz : c ≠ '0' := fun he => h.leading (hc ▸ he ▸ rfl)
  have ht : ds.take 1 = [c] := by
    rw [hc]
    rfl
  rw [withPower, ht]
  refine ⟨⟨List.cons_ne_nil _ _, by simpa using hd⟩, fun he => absurd (Option.some.inj he) hz, ?_, ?_⟩
  · intro fraction hf
    split at hf
    case isTrue => exact nomatch hf
    case isFalse hl =>
      cases hf
      exact h.digits.of_sublist (List.drop_sublist ..) (List.ne_nil_of_length_pos (by simp; omega))
  · rintro _ ⟨⟩
    refine ⟨.inl rfl, ?_, Numeral.digits_toDigits _⟩
    dsimp only
    split
    · exact .inr (.inr rfl)
    · exact .inr (.inl rfl)

theorem wellFormed_doubleNumeral (x : Float) : (doubleNumeral x).WellFormed := by
  rw [doubleNumeral]
  dsimp only
  split
  case isTrue =>
    refine ⟨Numeral.digits_zero, fun _ => rfl, ?_, nofun⟩
    rintro _ ⟨⟩
    exact Numeral.digits_zero
  case isFalse hx =>
    have hs : Significant (Decimal.ofFloat x).scientific.1 :=
      Decimal.significant_scientific (Decimal.ofFloat_pos hx)
    split
    · exact wellFormed_positional hs _ _
    · exact wellFormed_withPower hs _ _

theorem wellFormed_numeral (number : Number) : number.numeral.WellFormed := by
  cases number
  case integer n _ => exact Numeral.wellFormed_wholeNumeral n
  case double x => exact wellFormed_doubleNumeral x

end Number
end Json
end Entitlement
