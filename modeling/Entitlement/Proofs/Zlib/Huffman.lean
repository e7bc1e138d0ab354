import Entitlement.Proofs.Zlib.Bits
import Entitlement.Zlib.Huffman
/-!
The tree of a prefix code reads the words of the code: words are numbers that are counted up from
width to width, and as long as they do not run out, none of them begins another one.
-/

namespace Entitlement.Zlib.PrefixCode

variable {code : PrefixCode} {widths : List Nat}

-- The highest bit first.
def word (width n : Nat) : List Bool :=
  (field width n).reverse

theorem length_word (width n : Nat) : (word width n).length = width := by
  rw [word, List.length_reverse, length_field]

theorem word_succ (width n : Nat) : word (width + 1) n = n.testBit width :: word width n := by
  simp [word, field, List.range_succ]

theorem word_add (width more n : Nat) :
    word (width + more) n = word width (n / 2 ^ more) ++ word more n := by
  induction width
  case zero => rw [Nat.zero_add]; rfl
  case succ width hi =>
    rw [Nat.add_right_comm, word_succ, word_succ, hi, Nat.testBit_div_two_pow]
    rfl

theorem word_inj (hm : m < 2 ^ width) (hn : n < 2 ^ width) (h : word width m = word width n) :
    m = n :=
  field_inj hm hn (List.reverse_inj.mp h)

-- The number after that of the last word of at most this width.
def wordsEnd (widths : List Nat) : (width : Nat) → Nat
  | 0 => 0
  | width + 1 => 2 * wordsEnd widths width + widths.count (width + 1)

-- Words of one width are counted up in the order of their symbols, from where the shorter ones end.
structure Spells (widths : List Nat) (n : Nat) (bits : List Bool) : Prop where
  spelled : ∃ width, widths[n]? = some (width + 1) ∧ width < maxWidth ∧
    bits = word (width + 1) (2 * wordsEnd widths width + (widths.take n).count (width + 1))

theorem Spells.pos_length (h : Spells widths n bits) : 0 < bits.length := by
  have ⟨width, _, _, hb⟩ := h
  rw [hb, length_word]
  exact Nat.succ_pos width

-- The word that ends at a symbol.
inductive Leads : PrefixCode → List Bool → Nat → Prop
  | symbol : Leads (symbol n) [] n
  | zero : Leads low path n → Leads (fork low high) (false :: path) n
  | one : Leads high path n → Leads (fork low high) (true :: path) n

theorem reads_of_leads (h : Leads code path n) : Bits.Reads code.read? path n := by
  induction h
  case symbol => exact Bits.Reads.pure _
  case zero low _ _ high _ hi =>
    exact (Bits.reads_next? false).bind
      (fun bit bits => if bit then high.read? bits else low.read? bits) hi
  case one high _ _ low _ hi =>
    exact (Bits.reads_next? true).bind
      (fun bit bits => if bit then high.read? bits else low.read? bits) hi

theorem leads_insert (n width m : Nat) (code : PrefixCode) :
    Leads (insert n width m code) (word width m) n := by
  induction width generalizing code
  case zero => exact .symbol
  case succ width hi =>
    rw [word_succ]
    cases code <;> simp only [insert] <;> cases m.testBit width
    all_goals
      first
      | exact .zero (hi _)
      | exact .one (hi _)

-- A word stays if the new one neither begins it nor is begun by it.
theorem Leads.insert (h : Leads code path n) (hp : ¬path <+: word width m)
    (hw : ¬word width m <+: path) : Leads (insert k width m code) path n := by
  induction h generalizing width
  case symbol => exact absurd List.nil_prefix hp
  case zero hl hi =>
    match width with
    | 0 => exact absurd List.nil_prefix hw
    | width + 1 =>
      rw [word_succ, List.cons_prefix_cons] at hp hw
      rw [PrefixCode.insert]
      split
      case isTrue => exact .zero hl
      case isFalse ht =>
        have ht := Bool.eq_false_iff.mpr ht
        exact .zero (hi (fun h => hp ⟨ht.symm, h⟩) (fun h => hw ⟨ht, h⟩))
  case one hl hi =>
    match width with
    | 0 => exact absurd List.nil_prefix hw
    | width + 1 =>
      rw [word_succ, List.cons_prefix_cons] at hp hw
      rw [PrefixCode.insert]
      split
      case isTrue ht => exact .one (hi (fun h => hp ⟨ht.symm, h⟩) (fun h => hw ⟨ht, h⟩))
      case isFalse => exact .one hl

-- A number from beyond all that `word width n` begins.
theorem not_prefix_of_later (hn : n < 2 ^ width) (hm : m < 2 ^ (width + more))
    (h : (n + 1) * 2 ^ more ≤ m) : ¬word width n <+: word (width + more) m := by
  rintro ⟨rest, hr⟩
  rw [word_add] at hr
  have ⟨hw, _⟩ := List.append_inj hr (by rw [length_word, length_word])
  have hd : m / 2 ^ more < 2 ^ width := by
    rw [Nat.pow_add] at hm
    exact Nat.div_lt_of_lt_mul (by rwa [Nat.mul_comm])
  have hl : m < (m / 2 ^ more + 1) * 2 ^ more := by
    rw [Nat.mul_comm]
    exact Nat.lt_mul_div_succ m (Nat.two_pow_pos more)
  rw [word_inj hn hd hw] at h
  omega

theorem not_begun_by_later (hn : n < 2 ^ width) (hm : m < 2 ^ (width + more))
    (h : (n + 1) * 2 ^ more ≤ m) : ¬word (width + more) m <+: word width n := by
  intro hp
  have he := hp.eq_of_length_le (by rw [length_word, length_word]; omega)
  exact not_prefix_of_later hn hm h (he ▸ List.prefix_rfl)

-- A word of at most the width `width` that ends before the number `start` of that width.
structure Before (width start : Nat) (path : List Bool) : Prop where
  ends : ∃ short more n, path = word short n ∧ n < 2 ^ short ∧ short + more = width ∧
    (n + 1) * 2 ^ more ≤ start

theorem Before.mono (h : Before width start path) (hs : start ≤ stop) : Before width stop path :=
  have ⟨short, more, n, hp, hn, hw, he⟩ := h
  ⟨short, more, n, hp, hn, hw, he.trans hs⟩

theorem Before.succ (h : Before width start path) : Before (width + 1) (2 * start) path := by
  have ⟨short, more, n, hp, hn, hw, he⟩ := h
  refine ⟨short, more + 1, n, hp, hn, by omega, ?_⟩
  rw [Nat.pow_succ, ← Nat.mul_assoc]
  omega

theorem before_word (hn : n < 2 ^ width) : Before width (n + 1) (word width n) :=
  ⟨width, 0, n, rfl, hn, rfl, by rw [Nat.pow_zero, Nat.mul_one]⟩

theorem Leads.insert_of_before (h : Leads code path n) (hb : Before width m path)
    (hm : m < 2 ^ width) : Leads (PrefixCode.insert k width m code) path n := by
  have ⟨short, more, v, hp, hv, hw, he⟩ := hb
  subst hp hw
  exact h.insert (not_prefix_of_later hv hm he) (not_begun_by_later hv hm he)

variable {symbols more : List (Nat × Nat)}

theorem insertAll_append (width start : Nat) (symbols more : List (Nat × Nat)) (code : PrefixCode) :
    insertAll width start (symbols ++ more) code =
      insertAll width (start + symbols.length) more (insertAll width start symbols code).1 := by
  induction symbols generalizing start code
  case nil => rfl
  case cons symbol symbols hi =>
    rw [List.cons_append, insertAll, insertAll, hi, List.length_cons, Nat.add_assoc,
      Nat.add_comm 1]

theorem snd_insertAll (width start : Nat) (symbols : List (Nat × Nat)) (code : PrefixCode) :
    (insertAll width start symbols code).2 = start + symbols.length := by
  induction symbols generalizing start code
  case nil => rfl
  case cons symbol symbols hi =>
    rw [insertAll, hi, List.length_cons, Nat.add_assoc, Nat.add_comm 1]

theorem Leads.insertAll (h : Leads code path n) (hb : Before width start path)
    (hs : start + symbols.length ≤ 2 ^ width) :
    Leads (insertAll width start symbols code).1 path n := by
  induction symbols generalizing start code
  case nil => exact h
  case cons symbol symbols hi =>
    rw [List.length_cons] at hs
    exact hi (h.insert_of_before hb (by omega)) (hb.mono (Nat.le_succ start)) (by omega)

-- A symbol in the list gets the number after those of the ones before it.
theorem leads_insertAll (code : PrefixCode)
    (hs : start + (symbols ++ (w, n) :: more).length ≤ 2 ^ width) :
    Leads (insertAll width start (symbols ++ (w, n) :: more) code).1
      (word width (start + symbols.length)) n := by
  rw [List.length_append, List.length_cons] at hs
  have hl : start + symbols.length < 2 ^ width := by omega
  rw [insertAll_append, PrefixCode.insertAll]
  exact (leads_insert n width _ _).insertAll (before_word hl) (by omega)

theorem filter_used (widths : List Nat) (width : Nat) :
    (used widths).filter (·.1 = width + 1) = widths.zipIdx.filter (·.1 = width + 1) := by
  rw [used, List.filter_filter]
  congr 1
  funext symbol
  have hz : symbol.1 = width + 1 → symbol.1 ≠ 0 := by omega
  simpa using hz

theorem length_filter_zipIdx (widths : List Nat) (width : Nat) :
    (widths.zipIdx.filter (·.1 = width)).length = widths.count width := by
  have hm := List.countP_map (p := fun w => decide (w = width)) (f := Prod.fst) (l := widths.zipIdx)
  rw [List.zipIdx_map_fst] at hm
  rw [← List.countP_eq_length_filter]
  exact hm.symm

-- Before a symbol stand as many symbols of its width as there are such widths before its own.
theorem exists_filter_zipIdx (h : widths[n]? = some width) :
    ∃ before after, widths.zipIdx.filter (·.1 = width) = before ++ (width, n) :: after ∧
      before.length = (widths.take n).count width := by
  have ⟨hn, hw⟩ := List.getElem?_eq_some_iff.mp h
  have hs : widths = widths.take n ++ width :: widths.drop (n + 1) := by
    rw [← hw, List.getElem_cons_drop, List.take_append_drop]
  refine ⟨_, (((widths.drop (n + 1)).zipIdx (n + 1)).filter (·.1 = width)), ?_,
    length_filter_zipIdx (widths.take n) width⟩
  have hl : (widths.take n).length = n := List.length_take_of_le hn.le
  conv_lhs => rw [hs]
  simp [List.zipIdx_append, List.zipIdx_cons, hl]

-- What `build` has made of the words of at most this width.
def stage (widths : List Nat) : (width : Nat) → PrefixCode × Nat
  | 0 => (unused, 0)
  | width + 1 =>
    insertAll (width + 1) (2 * (stage widths width).2)
      ((used widths).filter (·.1 = width + 1)) (stage widths width).1

theorem build_eq (widths : List Nat) : build widths = (stage widths maxWidth).1 :=
  rfl

theorem snd_stage (widths : List Nat) (width : Nat) :
    (stage widths width).2 = wordsEnd widths width := by
  induction width
  case zero => rfl
  case succ width hi =>
    rw [stage, snd_insertAll, hi, filter_used, length_filter_zipIdx, wordsEnd]

theorem wordsEnd_nil (width : Nat) : wordsEnd [] width = 0 := by
  induction width
  case zero => rfl
  case succ width hi => rw [wordsEnd, hi]; rfl

theorem wordsEnd_cons (w : Nat) (widths : List Nat) (width : Nat) :
    wordsEnd (w :: widths) width =
      wordsEnd widths width + if 0 < w ∧ w ≤ width then 2 ^ (width - w) else 0 := by
  induction width
  case zero => simp [wordsEnd]; omega
  case succ width hi =>
    rw [wordsEnd, hi, wordsEnd, List.count_cons, beq_eq_decide]
    by_cases hw : 0 < w ∧ w ≤ width
    case pos =>
      have hp : 2 ^ (width + 1 - w) = 2 * 2 ^ (width - w) := by
        rw [Nat.succ_sub hw.right, Nat.pow_succ, Nat.mul_comm]
      rw [if_pos hw, if_neg (by simp; omega), if_pos (by omega), hp]
      omega
    case neg =>
      rw [if_neg hw]
      by_cases he : w = width + 1
      case pos =>
        rw [if_pos (by simpa using he), if_pos (by omega), he, Nat.sub_self]
        omega
      case neg =>
        rw [if_neg (by simpa using he), if_neg (by omega)]
        omega

theorem share_cons (w : Nat) (widths : List Nat) :
    share (w :: widths) = (if 0 < w then 2 ^ (maxWidth - w) else 0) + share widths := by
  have hs (widths : List Nat) : share widths =
      (widths.filter (· ≠ 0)).foldr (fun width n => 2 ^ (maxWidth - width) + n) 0 := by
    have hu : (used widths).map Prod.fst = widths.filter (· ≠ 0) := by
      have hf := List.filter_map (l := widths.zipIdx) (f := Prod.fst) (p := fun w => decide (w ≠ 0))
      rw [List.zipIdx_map_fst] at hf
      exact hf.symm
    rw [share, ← hu, List.foldr_map]
    rfl
  rw [hs, hs, List.filter_cons]
  split <;> simp_all

theorem wordsEnd_le_share (widths : List Nat) (h : width ≤ maxWidth) :
    wordsEnd widths width * 2 ^ (maxWidth - width) ≤ share widths := by
  induction widths
  case nil =>
    rw [wordsEnd_nil, Nat.zero_mul]
    exact Nat.zero_le _
  case cons w widths hi =>
    rw [wordsEnd_cons, share_cons]
    split
    case isTrue hw =>
      have hp : 2 ^ (width - w) * 2 ^ (maxWidth - width) = 2 ^ (maxWidth - w) := by
        rw [← Nat.pow_add]
        congr 1
        omega
      rw [if_pos hw.left, Nat.add_mul, hp]
      omega
    case isFalse =>
      rw [Nat.add_zero]
      omega

theorem wordsEnd_le (hs : share widths ≤ 2 ^ maxWidth) (h : width ≤ maxWidth) :
    wordsEnd widths width ≤ 2 ^ width := by
  have hl := (wordsEnd_le_share widths h).trans hs
  rw [← Nat.sub_add_cancel h, Nat.pow_add, Nat.mul_comm, Nat.sub_add_cancel h] at hl
  exact Nat.le_of_mul_le_mul_left hl (Nat.two_pow_pos _)

-- The word of a symbol leads to it as soon as its width is done, and all later words lie beyond it.
theorem leads_stage (hs : share widths ≤ 2 ^ maxWidth) (hn : widths[n]? = some (width + 1))
    (hp : path =
      word (width + 1) (2 * wordsEnd widths width + (widths.take n).count (width + 1)))
    (hw : width + 1 ≤ stop) (hm : stop ≤ maxWidth) :
    Leads (stage widths stop).1 path n ∧ Before stop (wordsEnd widths stop) path := by
  induction stop, hw using Nat.le_induction
  case base =>
    have ⟨before, after, hf, hl⟩ := exists_filter_zipIdx hn
    have he := wordsEnd_le hs hm
    have hc := length_filter_zipIdx widths (width + 1)
    rw [hf] at hc
    refine ⟨?leads, ?before⟩
    case leads =>
      rw [wordsEnd, ← hc, ← snd_stage] at he
      have hs := leads_insertAll (stage widths width).1 he
      rw [hl, ← hf, ← filter_used] at hs
      rwa [hp, stage, ← snd_stage]
    case before =>
      rw [List.length_append, List.length_cons, hl] at hc
      rw [wordsEnd] at he ⊢
      rw [hp]
      exact (before_word (by omega)).mono (by omega)
  case succ stop hw hi =>
    have ⟨hl, hb⟩ := hi (Nat.le_of_succ_le hm)
    have he := wordsEnd_le hs hm
    refine ⟨?leads, hb.succ.mono (Nat.le_add_right _ _)⟩
    rw [stage, filter_used, snd_stage]
    exact hl.insertAll hb.succ (by rwa [length_filter_zipIdx])

theorem share_le (h : isComplete widths || isTrivial widths) : share widths ≤ 2 ^ maxWidth := by
  rcases Bool.or_eq_true_iff.mp h with h | h
  case inl => exact (of_decide_eq_true h).le
  case inr =>
    rw [isTrivial] at h
    rw [share]
    split at h
    case h_1 hu =>
      rw [hu]
      exact Nat.zero_le _
    case h_2 width _ hu =>
      rw [hu, of_decide_eq_true h]
      exact Nat.le_of_ble_eq_true rfl
    case h_3 => cases h

theorem Spells.reads (h : Spells widths n path) (hs : share widths ≤ 2 ^ maxWidth) :
    Bits.Reads (build widths).read? path n := by
  have ⟨width, hn, hw, hp⟩ := h
  rw [build_eq]
  exact reads_of_leads (leads_stage hs hn hp hw le_rfl).left

end Entitlement.Zlib.PrefixCode
