import Entitlement.Json.Number
import Mathlib.Data.List.TakeWhile
import Mathlib.Tactic.Common
/-!
Numbers as they are written: no part of them is missing, and their digits have no leading zero, so
that they are read back as far as they go.
-/

namespace Entitlement.Json

-- Digits, and at least one.
structure Numeral.Digits (ds : List Char) : Prop where
  ne_nil : ds ≠ []
  isDigit : ∀ c ∈ ds, c.isDigit

structure Exponent.WellFormed (e : Exponent) : Prop where
  letter : e.letter = 'e' ∨ e.letter = 'E'
  sign : e.sign = none ∨ e.sign = some '+' ∨ e.sign = some '-'
  digits : Numeral.Digits e.digits

structure Numeral.WellFormed (numeral : Numeral) : Prop where
  whole : Digits numeral.whole
  leading : numeral.whole.head? = some '0' → numeral.whole = ['0']
  fraction : ∀ ds, numeral.fraction = some ds → Digits ds
  exponent : ∀ e, numeral.exponent = some e → e.WellFormed

namespace Numeral

open Number (wholeNumeral)

variable {numeral : Numeral} {ds rest : List Char}

theorem isDigit_of_mem_toDigits (h : c ∈ Nat.toDigits 10 n) : c.isDigit :=
  Nat.isDigit_of_mem_toDigits (by decide) (by decide) h

theorem digits_toDigits (n : Nat) : Digits (Nat.toDigits 10 n) where
  ne_nil := Nat.toDigits_ne_nil
  isDigit _ h := isDigit_of_mem_toDigits h

theorem head?_toDigits_ne (h : 0 < n) : (Nat.toDigits 10 n).head? ≠ some '0' := by
  induction n using Nat.strongRecOn
  case ind n hi =>
    by_cases hn : n < 10
    case pos =>
      have hd : ∀ n < 10, 0 < n → Nat.digitChar n ≠ '0' := by decide
      rw [Nat.toDigits_of_lt_base hn]
      simpa using hd n hn h
    case neg =>
      have hq := hi (n / 10) (by omega) (by omega)
      have ⟨c, cs, hc⟩ := List.exists_cons_of_ne_nil (digits_toDigits (n / 10)).ne_nil
      rw [Nat.toDigits_of_base_le (by decide) (by omega), hc]
      rwa [hc] at hq

theorem wellFormed_wholeNumeral (n : Int) : (wholeNumeral n).WellFormed where
  whole := digits_toDigits n.natAbs
  leading h := by
    by_cases hn : 0 < n.natAbs
    case pos => exact absurd h (head?_toDigits_ne hn)
    case neg =>
      have hz : n = 0 := by omega
      rw [hz]
      rfl
  fraction := nofun
  exponent := nofun

theorem Digits.head_isDigit (h : Digits ds) : ∃ c cs, ds = c :: cs ∧ c.isDigit := by
  have ⟨c, cs, hc⟩ := List.exists_cons_of_ne_nil h.ne_nil
  exact ⟨c, cs, hc, h.isDigit c (hc ▸ List.mem_cons_self)⟩

-- What follows some digits is not one more of them.
def Stops (rest : List Char) : Prop :=
  ∀ c ∈ rest.head?, ¬c.isDigit

-- What follows a number cannot be taken for a part of it.
def Ends (rest : List Char) : Prop :=
  ∀ c ∈ rest.head?, ¬c.isDigit ∧ c ≠ '.' ∧ c ≠ 'e' ∧ c ≠ 'E'

theorem Ends.stops (h : Ends rest) : Stops rest :=
  fun c hc => (h c hc).1

theorem digits_append (hd : Digits ds) (h : Stops rest) : digits (ds ++ rest) = ds := by
  rw [digits, List.takeWhile_append_of_pos hd.isDigit]
  match rest with
  | [] => simp
  | c :: _ => simp [h c rfl]

theorem afterDigits_append (hd : Digits ds) (h : Stops rest) : afterDigits (ds ++ rest) = rest := by
  rw [afterDigits, List.dropWhile_append_of_pos hd.isDigit]
  match rest with
  | [] => rfl
  | c :: _ => exact List.dropWhile_cons_of_neg (h c rfl)

theorem someDigits?_append (hd : Digits ds) (h : Stops rest) : someDigits? (ds ++ rest) = some ds := by
  rw [someDigits?, digits_append hd h, if_neg hd.ne_nil]

theorem WellFormed.whole?_append (hw : numeral.WellFormed) (h : Stops rest) :
    whole? (numeral.whole ++ rest) = some numeral.whole := by
  rw [whole?, digits_append hw.whole h]
  split
  case h_1 he => exact absurd he hw.whole.ne_nil
  case h_2 he => exact nomatch he.symm.trans (hw.leading (congrArg List.head? he))
  case h_3 => rfl

theorem readExponent?_of_ends (h : Ends rest) : readExponent? rest = some none := by
  match rest with
  | [] => rfl
  | c :: _ => simp [readExponent?, (h c rfl).2]

theorem readSign_append {e : Exponent} (h : e.WellFormed) (rest : List Char) :
    readExponent?.readSign (e.sign.toList ++ (e.digits ++ rest)) = (e.sign, e.digits ++ rest) := by
  rcases h.sign with hs | hs | hs
  case inl =>
    have ⟨c, cs, hc, hd⟩ := h.digits.head_isDigit
    rw [hs, hc]
    refine readExponent?.readSign.eq_3 _ ?_ ?_
    all_goals
      rintro _ ⟨⟩
      exact absurd hd (by decide)
  case inr.inl => rw [hs]; rfl
  case inr.inr => rw [hs]; rfl

theorem WellFormed.readExponent?_append (hw : numeral.WellFormed) (h : Ends rest) :
    readExponent? (text.exponent numeral ++ rest) = some numeral.exponent := by
  rw [text.exponent]
  cases he : numeral.exponent
  case none => exact readExponent?_of_ends h
  case some e =>
    have hx := hw.exponent e he
    have hl : (e.letter = 'e' || e.letter = 'E') = true := by simpa using hx.letter
    simp only [Option.elim_some, List.cons_append, List.append_assoc, readExponent?, hl, if_true,
      readSign_append hx, someDigits?_append hx.digits h.stops, Option.map_some]

-- After the whole part and the fraction no further digit can follow.
theorem WellFormed.stops_exponent (hw : numeral.WellFormed) (h : Ends rest) :
    ∀ c ∈ (text.exponent numeral ++ rest).head?, ¬c.isDigit ∧ c ≠ '.' := by
  rw [text.exponent]
  cases he : numeral.exponent
  case none => exact fun c hc => ⟨(h c hc).1, (h c hc).2.1⟩
  case some e =>
    rintro _ ⟨⟩
    rcases (hw.exponent e he).letter with hl | hl <;> rw [hl] <;> decide

theorem WellFormed.readUnsigned?_append (hw : numeral.WellFormed) (h : Ends rest) :
    readUnsigned? numeral.negative
      (numeral.whole ++ (text.fraction numeral ++ (text.exponent numeral ++ rest))) =
        some numeral := by
  have hx := hw.stops_exponent h
  have hr := hw.readExponent?_append h
  have hs : Stops (text.exponent numeral ++ rest) := fun c hc => (hx c hc).1
  have ⟨negative, whole, fraction, exponent⟩ := numeral
  generalize text.exponent _ ++ rest = tail at hx hr hs
  cases fraction
  case none =>
    have hw' : whole? (whole ++ tail) = some whole := hw.whole?_append hs
    have ha : afterDigits (whole ++ tail) = tail := afterDigits_append hw.whole hs
    rw [text.fraction, Option.elim_none, List.nil_append, readUnsigned?, hw']
    simp only [ha]
    match tail with
    | [] => simp [hr]
    | c :: _ =>
      have hc : c ≠ '.' := (hx c rfl).2
      simp [hr, hc]
  case some fraction =>
    have hf : Digits fraction := hw.fraction fraction rfl
    have hp : Stops ('.' :: fraction ++ tail) := by
      rintro _ ⟨⟩
      decide
    have hw' : whole? (whole ++ ('.' :: fraction ++ tail)) = some whole := hw.whole?_append hp
    have ha : afterDigits (whole ++ ('.' :: fraction ++ tail)) = '.' :: fraction ++ tail :=
      afterDigits_append hw.whole hp
    rw [text.fraction, Option.elim_some, readUnsigned?, hw']
    simp only [ha]
    simp [someDigits?_append hf hs, afterDigits_append hf hs, hr]

theorem text_append (numeral : Numeral) (rest : List Char) : numeral.text ++ rest =
    (if numeral.negative then ['-'] else []) ++
      (numeral.whole ++ (text.fraction numeral ++ (text.exponent numeral ++ rest))) := by
  simp [text, text.sign]

theorem WellFormed.exists_text_eq_cons (hw : numeral.WellFormed) :
    ∃ c cs, numeral.text = c :: cs ∧ (c = '-' ∨ c.isDigit) := by
  have ⟨c, cs, hc, hd⟩ := hw.whole.head_isDigit
  have ht := text_append numeral []
  rw [List.append_nil, hc] at ht
  rw [ht]
  cases numeral.negative
  case false => exact ⟨c, _, rfl, .inr hd⟩
  case true => exact ⟨'-', _, rfl, .inl rfl⟩

theorem WellFormed.read?_append (hw : numeral.WellFormed) (h : Ends rest) :
    read? (numeral.text ++ rest) = some numeral := by
  have hr := hw.readUnsigned?_append h
  rw [text_append]
  cases hn : numeral.negative
  case true =>
    rw [hn] at hr
    exact hr
  case false =>
    have ⟨c, cs, hc, hd⟩ := hw.whole.head_isDigit
    rw [hn] at hr
    rw [if_neg nofun, List.nil_append, read?.eq_2 _ ?_, hr]
    intro tail he
    rw [hc, List.cons_append, List.cons.injEq] at he
    exact absurd (he.1 ▸ hd) (by decide)

end Numeral
end Entitlement.Json
