import Entitlement.Json.Token
import Entitlement.Proofs.Json.Escape
import Entitlement.Proofs.Json.Numeral
/-!
Words that were written one after another are cut apart again.
-/

namespace Entitlement.Json.Token

variable {token : Token} {rest : List Char}

-- The words that are written for values.
def Writable : Token → Prop
  | number numeral => numeral.WellFormed
  | string body => ∃ text, body = Escape.encode text
  | broken => False
  | _ => True

-- A number must not be followed by what could be a part of it.
def FollowedBy (token : Token) (rest : List Char) : Prop :=
  ∀ numeral, token = number numeral → Numeral.Ends rest

theorem read_of_numeric (h : c = '-' ∨ c.isDigit) (cs : List Char) :
    read (c :: cs) = (Numeral.read? (c :: cs)).elim broken number := by
  refine read.eq_11 _ ?_ ?_ ?_ ?_ ?_ ?_ ?_ ?_ ?_ ?_ <;> (rintro _ ⟨⟩; simp at h)

theorem read_append (hw : token.Writable) (hf : token.FollowedBy rest) :
    read (token.text ++ rest) = token := by
  match token, hw with
  | number _, hw =>
    have ⟨c, cs, ht, hc⟩ := hw.exists_text_eq_cons
    have hr := hw.read?_append (hf _ rfl)
    rw [text, ht, List.cons_append] at *
    rw [read_of_numeric hc, hr]
    rfl
  | string _, ⟨content, rfl⟩ =>
    have hb := Escape.body?_encode content rest
    rw [text, List.append_assoc, List.cons_append, List.singleton_append, read, hb]
    rfl
  | openArray, _ | closeArray, _ | openObject, _ | closeObject, _ | comma, _ | colon, _ | null, _
  | bool true, _ | bool false, _ => rfl

theorem exists_text_eq_cons (hw : token.Writable) :
    ∃ c cs, token.text = c :: cs ∧ ¬isBlank c := by
  match token, hw with
  | number _, hw =>
    have ⟨c, cs, ht, hc⟩ := hw.exists_text_eq_cons
    refine ⟨c, cs, ht, fun hb => ?_⟩
    simp only [isBlank, Bool.or_eq_true, decide_eq_true_eq] at hb
    rcases hb with ((rfl | rfl) | rfl) | rfl <;> simp at hc
  | string body, _ => exact ⟨'"', body ++ ['"'], rfl, by decide⟩
  | openArray, _ | closeArray, _ | openObject, _ | closeObject, _ | comma, _ | colon, _ | null, _
  | bool true, _ | bool false, _ => exact ⟨_, _, rfl, by decide⟩

theorem cut_skip (cs rest : List Char) : cut cs.length (cs ++ rest) = cut 0 rest := by
  induction cs
  case nil => rfl
  case cons c cs hi => exact hi

theorem cut_append (hw : token.Writable) (hf : token.FollowedBy rest) :
    cut 0 (token.text ++ rest) = token :: cut 0 rest := by
  have ⟨c, cs, ht, hc⟩ := exists_text_eq_cons hw
  have hr := read_append hw hf
  have hb : token ≠ broken := by
    rintro rfl
    exact hw
  rw [ht, List.cons_append] at hr ⊢
  rw [cut, if_neg hc, hr]
  split
  case h_1 => exact absurd rfl hb
  case h_2 => rw [ht, List.length_cons, Nat.add_sub_cancel, cut_skip]

end Entitlement.Json.Token
