import Entitlement.Json.Escape
import Mathlib.Tactic.Common
/-!
A text that is written between quotes is found again up to its closing quote, and it stands for
itself.
-/

namespace Entitlement.Json.Escape

open Text (hexDigit hexValue?_hexDigit)

-- The forms in which a character is written.
inductive Written (c : Char) : List Char → Prop
  | short {e : Char} (h : simple? e = some c) : Written c ['\\', e]
  | control (h : c < ' ') :
    Written c ['\\', 'u', '0', '0', hexDigit (c.toNat / 16), hexDigit (c.toNat % 16)]
  | plain (notControl : ¬c < ' ') (notQuote : c ≠ '"') (notEscape : c ≠ '\\') : Written c [c]

theorem written_encodeChar (c : Char) : Written c (encodeChar c) := by
  unfold encodeChar
  split_ifs
  case pos h => exact .short (congrArg some h.symm)
  case pos h => exact .short (congrArg some h.symm)
  case pos h => exact .short (congrArg some h.symm)
  case pos h => exact .short (congrArg some h.symm)
  case pos h => exact .short (congrArg some h.symm)
  case pos h => exact .short (congrArg some h.symm)
  case pos h => exact .short (congrArg some h.symm)
  case pos h => exact .control h
  case neg hq he _ _ _ _ _ hc => exact .plain hc hq he

theorem hexUnit?_control {c : Char} (h : c < ' ') :
    hexUnit? '0' '0' (hexDigit (c.toNat / 16)) (hexDigit (c.toNat % 16)) = some c.toNat := by
  have hc : c.toNat < 32 := h
  have hz : Text.hexValue? '0' = some 0 := by decide
  rw [hexUnit?, hz, hexValue?_hexDigit (by omega), hexValue?_hexDigit (by omega)]
  simp
  omega

variable {form : List Char}

theorem Written.go_body (h : Written c form) (read rest : List Char) :
    body?.go read (form ++ rest) = body?.go (form.reverse ++ read) rest := by
  cases h
  case short e h =>
    have hu : e ≠ 'u' := by
      rintro rfl
      exact nomatch h
    rw [List.cons_append, List.cons_append, List.nil_append, body?.go.eq_4, h]
    · rfl
    · intro a b c d rest he
      exact absurd he hu
  case control h =>
    simp [body?.go, hexUnit?_control h]
  case plain notControl notQuote notEscape =>
    rw [List.cons_append, List.nil_append, body?.go.eq_5]
    · simp [notControl, notEscape]
    · exact notQuote
    · exact fun _ _ _ _ _ he => absurd he notEscape
    · exact fun _ _ he => absurd he notEscape

theorem Written.go_decode (h : Written c form) (decoded rest : List Char) :
    decode?.go decoded (form ++ rest) = decode?.go (c :: decoded) rest := by
  cases h
  case short e h =>
    have hu : e ≠ 'u' := by
      rintro rfl
      exact nomatch h
    rw [List.cons_append, List.cons_append, List.nil_append, decode?.go.eq_3, h]
    exact fun a b c d rest he => absurd he hu
  case control h =>
    have hc : c.toNat < 32 := h
    have hh : isHighSurrogate c.toNat = false := by
      rw [isHighSurrogate, decide_eq_false (by omega), Bool.false_and]
    have hl : isLowSurrogate c.toNat = false := by
      rw [isLowSurrogate, decide_eq_false (by omega), Bool.false_and]
    simp [decode?.go, hexUnit?_control h, hh, hl]
  case plain notControl notQuote notEscape =>
    rw [List.cons_append, List.nil_append, decode?.go.eq_4]
    · exact fun _ _ _ _ _ he => absurd he notEscape
    · exact fun _ _ he => absurd he notEscape

theorem go_body_encode (read text rest : List Char) :
    body?.go read (encode text ++ '"' :: rest) = some (read.reverse ++ encode text) := by
  induction text generalizing read
  case nil => simp [encode, body?.go]
  case cons c text hi =>
    rw [encode, List.flatMap_cons, List.append_assoc, (written_encodeChar c).go_body, ← encode, hi]
    simp

theorem body?_encode (text rest : List Char) :
    body? (encode text ++ '"' :: rest) = some (encode text) :=
  go_body_encode [] text rest

theorem go_decode_encode (decoded text : List Char) :
    decode?.go decoded (encode text) = some (decoded.reverse ++ text) := by
  induction text generalizing decoded
  case nil => simp [encode, decode?.go]
  case cons c text hi =>
    rw [encode, List.flatMap_cons, (written_encodeChar c).go_decode, ← encode, hi]
    simp

theorem decode?_encode (text : List Char) : decode? (encode text) = some text :=
  go_decode_encode [] text

end Entitlement.Json.Escape
