import Entitlement.Text.Blank
import Mathlib.Data.List.TakeWhile
/-!
Texts without the blanks at their ends.
-/

namespace Entitlement.Text

variable {before text after : List Char}

theorem dropWhile_of_not_blank (ht : ∀ c ∈ text, ¬isBlank c) : text.dropWhile isBlank = text := by
  cases text
  case nil => rfl
  case cons c text => exact List.dropWhile_cons_of_neg (ht c List.mem_cons_self)

-- Blanks on both sides of a text are taken off, and nothing of the text is.
theorem trimmed_append (hb : ∀ c ∈ before, isBlank c) (ht : ∀ c ∈ text, ¬isBlank c)
    (ha : ∀ c ∈ after, isBlank c) : trimmed (before ++ (text ++ after)) = text := by
  rw [trimmed, List.dropWhile_append_of_pos hb]
  cases text
  case nil => simp [List.dropWhile_eq_nil_iff.mpr ha]
  case cons c text =>
    have hr : ∀ d ∈ (c :: text).reverse, ¬isBlank d := fun d hd => ht d (List.mem_reverse.mp hd)
    have hs : ∀ d ∈ after.reverse, isBlank d := fun d hd => ha d (List.mem_reverse.mp hd)
    rw [List.cons_append, List.dropWhile_cons_of_neg (ht c List.mem_cons_self), ← List.cons_append,
      List.reverse_append, List.dropWhile_append_of_pos hs, dropWhile_of_not_blank hr,
      List.reverse_reverse]

end Entitlement.Text
