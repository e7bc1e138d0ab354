import Entitlement.Text.Lowercase
import Entitlement.Proofs.Path.Split
/-!
Lowercase forms and slashes: a slash is its own lowercase form and that of no other character, and
no sigma looks beyond it. Hence the segments of a path in lowercase are its segments in lowercase.
-/

namespace Entitlement.Text

open Entitlement.Path (Joinable intercalate_split joinable_split separator split split_intercalate)

theorem lowerRuns_above_slash : ∀ run ∈ lowerRuns, '/'.toNat < run.first + run.shift := by
  decide +kernel

theorem ofNat_eq_slash (h : Char.ofNat n = '/') : n = '/'.toNat := by
  by_cases hv : n.isValidChar
  case pos =>
    have hn : (Char.ofNat n).toNat = n := congrArg Char.toNat (dif_pos hv)
    rw [← hn, h]
  case neg =>
    have he : Char.ofNat n = Char.ofNat 0 := dif_neg hv
    exact absurd (he.symm.trans h) (by decide)

theorem toLower_eq_slash (h : c.toLower = '/') : c = '/' := by
  by_cases hu : c.val ≥ 'A'.val ∧ c.val ≤ 'Z'.val
  case pos =>
    have hv : c.toLower.val = c.val + ('a'.val - 'A'.val) := congrArg Char.val (dif_pos hu)
    have hn := congrArg UInt32.toNat (hv.symm.trans (congrArg Char.val h))
    simp [UInt32.le_iff_toNat_le] at hn hu
    omega
  case neg =>
    have he : c.toLower = c := dif_neg hu
    exact he.symm.trans h

theorem lowerChar_eq_slash (h : lowerChar c = '/') : c = '/' := by
  rw [lowerChar] at h
  split at h
  case isTrue hc => exact toLower_eq_slash h
  case isFalse hc =>
    split at h
    case h_1 run hr =>
      have hm := lowerRuns_above_slash run (List.mem_of_find?_eq_some hr)
      have hn := ofNat_eq_slash h
      have hf : run.first ≤ c.toNat := by
        have hh := List.find?_some hr
        simp only [CaseRun.has, Bool.and_eq_true, decide_eq_true_eq] at hh
        exact hh.1.1
      omega
    case h_2 => exact h

variable {before before' text after after' chars rest : List Char}

theorem slash_not_mem_mapped (h : c ≠ '/') (after : List Char) :
    '/' ∉ lowerChars.mapped before c after := by
  rw [lowerChars.mapped]
  split
  · split <;> decide
  · split
    · decide
    · simpa using fun hl => h (lowerChar_eq_slash hl.symm)

theorem mapped_slash (before after : List Char) : lowerChars.mapped before '/' after = ['/'] :=
  rfl

theorem mapped_ne_nil (before : List Char) (c : Char) (after : List Char) :
    lowerChars.mapped before c after ≠ [] := by
  rw [lowerChars.mapped]
  split_ifs <;> simp

theorem slash_prefix_lowerChars (h : ['/'] <+: lowerChars before text) : ['/'] <+: text := by
  cases text
  case nil => exact h
  case cons c after =>
    by_cases hc : c = '/'
    case pos => simp [hc]
    case neg =>
      have ⟨d, ds, hd⟩ := List.exists_cons_of_ne_nil (mapped_ne_nil before c after)
      have hm : '/' ∉ lowerChars.mapped before c after := slash_not_mem_mapped hc after
      rw [lowerChars, hd, List.cons_append] at h
      rw [hd] at hm
      simp_all

-- The slash has no case and is not passed over, so that no character looks beyond it.
theorem meetsCased_append_slash (near far : List Char) :
    meetsCased (near ++ '/' :: far) = meetsCased near := by
  induction near
  case nil =>
    have hi : isIgnorable '/' = false := by decide +kernel
    have hc : isCased '/' = false := by decide +kernel
    simp [meetsCased, hi, hc]
  case cons c near hn =>
    by_cases h : isIgnorable c
    case pos => simpa [meetsCased, h] using hn
    case neg => simp [meetsCased, h]

theorem mapped_congr (hb : meetsCased before = meetsCased before')
    (ha : meetsCased after = meetsCased after') (c : Char) :
    lowerChars.mapped before c after = lowerChars.mapped before' c after' := by
  simp [lowerChars.mapped, endsWord, hb, ha]

theorem lowerChars_behind_slash (near far text : List Char) :
    lowerChars (near ++ '/' :: far) text = lowerChars near text := by
  induction text generalizing near
  case nil => rfl
  case cons c after hi =>
    rw [lowerChars, lowerChars, mapped_congr (meetsCased_append_slash near far) rfl]
    exact congrArg _ (hi (c :: near))

theorem lowerChars_append_slash (before text rest : List Char) :
    lowerChars before (text ++ '/' :: rest) = lowerChars before text ++ '/' :: lowerChars [] rest := by
  induction text generalizing before
  case nil =>
    have hr : lowerChars ('/' :: before) rest = lowerChars [] rest :=
      lowerChars_behind_slash [] before rest
    simp [lowerChars, mapped_slash, hr]
  case cons c text hi =>
    rw [List.cons_append, lowerChars, lowerChars, hi, List.append_assoc,
      mapped_congr rfl (meetsCased_append_slash text rest)]

theorem lowerChars_append_separator (before text rest : List Char) :
    lowerChars before (text ++ separator ++ rest) =
      lowerChars before text ++ separator ++ lowerChars [] rest := by
  have hr : lowerChars [] ('/' :: rest) = '/' :: lowerChars [] rest :=
    lowerChars_append_slash [] [] rest
  simp [separator, lowerChars_append_slash, hr]

theorem lowerChars_intercalate (list : List (List Char)) :
    lowerChars [] (separator.intercalate list) =
      separator.intercalate (list.map (lowerChars [])) := by
  induction list
  case nil => rfl
  case cons segment rest hi =>
    cases rest
    case nil => simp
    case cons next rest =>
      rw [List.intercalate_cons_cons, lowerChars_append_separator, hi]
      exact List.intercalate_cons_cons.symm

theorem separator_infix_of_append (h : '/' ∉ chars) (hs : separator <:+: chars ++ rest) :
    separator <:+: rest := by
  induction chars
  case nil => exact hs
  case cons c chars hi =>
    rw [List.mem_cons, not_or] at h
    cases List.infix_cons_iff.mp hs
    case inl hp => exact absurd (List.cons_prefix_cons.mp hp).1 h.1
    case inr hs => exact hi h.2 hs

-- A separator in lowercase was one before.
theorem separator_infix_lowerChars (h : separator <:+: lowerChars before text) :
    separator <:+: text := by
  induction text generalizing before
  case nil => exact h
  case cons c after hi =>
    by_cases hc : c = '/'
    case pos =>
      rw [lowerChars, hc, mapped_slash, List.singleton_append] at h
      cases List.infix_cons_iff.mp h
      case inl hp =>
        have ha := slash_prefix_lowerChars (List.cons_prefix_cons.mp hp).2
        exact (hc ▸ List.cons_prefix_cons.mpr ⟨rfl, ha⟩ : separator <+: c :: after).isInfix
      case inr hs => exact List.infix_cons (hi hs)
    case neg =>
      have hs := separator_infix_of_append (slash_not_mem_mapped hc after) h
      exact List.infix_cons (hi hs)

theorem joinable_lowerChars (h : Joinable list) : Joinable (list.map (lowerChars [])) := by
  induction h
  case last h => exact .last (mt separator_infix_lowerChars h)
  case cons segment rest h _ hi =>
    refine .cons (fun hs => h ?_) hi
    apply separator_infix_lowerChars
    rwa [lowerChars_append_slash]

theorem split_lowerChars (text : List Char) :
    split (lowerChars [] text) = (split text).map (lowerChars []) := by
  calc split (lowerChars [] text)
    _ = split (lowerChars [] (separator.intercalate (split text))) := by rw [intercalate_split]
    _ = split (separator.intercalate ((split text).map (lowerChars []))) := by
      rw [lowerChars_intercalate]
    _ = (split text).map (lowerChars []) := split_intercalate (joinable_lowerChars (joinable_split text))

theorem segments_lowercase (path : String) :
    Path.segments (lowercase path) = (Path.segments path).map lowercase := by
  simp [Path.segments, lowercase, split_lowerChars, Function.comp_def]

theorem length_segments_lowercase (path : String) :
    (Path.segments (lowercase path)).length = (Path.segments path).length := by
  rw [segments_lowercase, List.length_map]

end Entitlement.Text
