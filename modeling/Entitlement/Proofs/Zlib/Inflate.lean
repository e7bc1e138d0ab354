import Entitlement.Proofs.Zlib.Format
/-!
Every compressed stream is read to its end and gives its output.
-/

namespace Entitlement.Zlib

namespace Format

open Bits (Reads)

variable {widths : Widths} {bits : Bits} {out final : ByteArray}

theorem Entry.reads (h : Entry table n value taken) :
    Reads (Inflate.entry? table n) taken value := by
  have ⟨base, width, more, ht, hm, hv, hb⟩ := h
  subst hv hb
  intro bits after hb
  have ⟨rest, hr, hb⟩ := (Bits.reads_number? hm).map (base + ·) bits after hb
  exact ⟨rest, by rw [Inflate.entry?, ht]; exact hr, hb⟩

namespace Widths

def codes (widths : Widths) : Inflate.Codes :=
  ⟨.build widths.literals, .build widths.distances⟩

-- The words do not run out.
structure Fit (widths : Widths) : Prop where
  literals : PrefixCode.share widths.literals ≤ 2 ^ PrefixCode.maxWidth
  distances : PrefixCode.share widths.distances ≤ 2 ^ PrefixCode.maxWidth

theorem fit_fixed : fixedWidths.Fit where
  literals := by decide +kernel
  distances := by decide +kernel

end Widths

-- The fuel lasts: each symbol takes a bit.
theorem Symbols.read (h : Symbols widths taken out final) (hw : widths.Fit)
    (hf : taken.length ≤ fuel) (hb : bits.Holds (taken ++ more)) :
    ∃ rest, Inflate.symbols? widths.codes fuel bits out = some (rest, final) ∧ rest.Holds more := by
  induction h generalizing fuel bits
  case stop hs =>
    have hf := hs.pos_length.trans_le hf
    have ⟨rest, hr, hb⟩ := hs.reads hw.literals bits more hb
    match fuel with
    | fuel + 1 => exact ⟨rest, by simp [Inflate.symbols?, Widths.codes, hr], hb⟩
  case literal byte hs _ hi =>
    have hp := hs.pos_length
    rw [List.length_append] at hf
    rw [List.append_assoc] at hb
    have hz : 0 < fuel := by omega
    have ⟨middle, hr, hb⟩ := hs.reads hw.literals bits _ hb
    have hl : byte.toNat < Inflate.endOfBlock := byte.toNat_lt
    match fuel with
    | fuel + 1 =>
      have ⟨rest, hm, hb⟩ := @hi _ fuel (by omega) hb
      refine ⟨rest, ?_, hb⟩
      rw [Inflate.symbols?]
      simp only [Widths.codes] at hm ⊢
      simp only [hr, Option.bind_eq_bind, Option.bind_some, if_pos hl, UInt8.ofNat_toNat, hm]
  case copy length _ _ _ _ _ _ _ _ _ _ hs hc hd hp _ _ hi =>
    have hl := hs.pos_length
    simp only [List.length_append] at hf
    simp only [List.append_assoc] at hb
    have hz : 0 < fuel := by omega
    have ⟨bits₁, h₁, hb⟩ := hs.reads hw.literals bits _ hb
    have ⟨bits₂, h₂, hb⟩ := hc.reads bits₁ _ hb
    have ⟨bits₃, h₃, hb⟩ := hd.reads hw.distances bits₂ _ hb
    have ⟨bits₄, h₄, hb⟩ := hp.reads bits₃ _ hb
    have hn : ¬257 + length < Inflate.endOfBlock :=
      Nat.not_lt.mpr (Nat.le_add_right_of_le (by decide))
    have he : ¬257 + length = Inflate.endOfBlock :=
      Nat.ne_of_gt (Nat.lt_add_right length (by decide))
    match fuel with
    | fuel + 1 =>
      have ⟨rest, hm, hb⟩ := @hi _ fuel (by omega) hb
      refine ⟨rest, ?_, hb⟩
      rw [Inflate.symbols?]
      simp only [Widths.codes] at hm ⊢
      simp only [h₁, Option.bind_eq_bind, Option.bind_some, if_neg hn, if_neg he,
        Nat.add_sub_cancel_left, h₂, h₃, h₄, hm]

theorem reads_numbers? (h : ∀ n ∈ written, n < 2 ^ width) :
    Reads (Inflate.numbers? width written.length) (written.flatMap (field width)) written := by
  induction written
  case nil => exact .pure []
  case cons n written hi =>
    have ⟨hn, hw⟩ := List.forall_mem_cons.mp h
    exact (Bits.reads_number? hn).bind
      (fun n bits => (Inflate.numbers? width written.length bits).bind
        fun rest => some (n :: rest.1, rest.2))
      ((hi hw).map (n :: ·))

theorem Repeats.pos (h : Repeats prior symbol width least w) : 0 < least := by
  cases h <;> decide

theorem Repeats.widths?_eq (h : Repeats prior symbol width least w) (hl : before.head? = prior)
    (ht : before.length < total) (hr : code.read? bits = some (symbol, middle)) :
    Inflate.widths? code total (fuel + 1) before bits =
      (middle.number? width).bind fun (more, bits) =>
        Inflate.widths? code total fuel (List.replicate (least + more) w ++ before) bits := by
  rw [Inflate.widths?, if_neg (by omega), hr]
  cases h
  case last =>
    rw [hl]
    rfl
  case zero => rfl
  case zeros => rfl

-- Each run adds to the widths that were read.
theorem Runs.read (h : Runs code prior taken added) (hc : PrefixCode.isComplete code)
    (hl : before.head? = prior) (ht : before.length + added.length = total)
    (hf : added.length < fuel) (hb : bits.Holds (taken ++ more)) :
    ∃ rest, Inflate.widths? (.build code) total fuel before bits =
      some (before.reverse ++ added, rest) ∧ rest.Holds more := by
  have hs := PrefixCode.share_le (Bool.or_eq_true_iff.mpr (.inl hc))
  induction h generalizing fuel before bits
  case done =>
    match fuel with
    | fuel + 1 => exact ⟨bits, by simp_all [Inflate.widths?], hb⟩
  case width w _ _ _ _ hw hp _ hi =>
    rw [List.append_assoc] at hb
    rw [List.length_cons] at ht hf
    have ⟨middle, hr, hb⟩ := hp.reads hs bits _ hb
    match fuel with
    | fuel + 1 =>
      have ⟨rest, hm, hb⟩ := @hi _ fuel (w :: before) rfl (by rw [List.length_cons]; omega)
        (by omega) hb
      rw [List.reverse_cons, List.append_assoc] at hm
      refine ⟨rest, ?_, hb⟩
      rw [Inflate.widths?, if_neg (by omega), hr]
      exact (if_pos hw).trans hm
  case run least w n _ _ _ hw hn hp _ hi =>
    simp only [List.append_assoc] at hb
    rw [List.length_append, List.length_replicate] at ht hf
    have hz := hw.pos
    have ⟨_, hr, hb⟩ := hp.reads hs bits _ hb
    have ⟨_, hn, hb⟩ := Bits.reads_number? hn _ _ hb
    match fuel with
    | fuel + 1 =>
      have ⟨rest, hm, hb⟩ := @hi _ fuel (List.replicate (least + n) w ++ before)
        (by rw [List.head?_append, List.head?_replicate, if_neg (by omega)]; rfl)
        (by rw [List.length_append, List.length_replicate]; omega) (by omega) hb
      rw [List.reverse_append, List.reverse_replicate, List.append_assoc] at hm
      refine ⟨rest, ?_, hb⟩
      rw [hw.widths?_eq hl (by omega) hr, hn]
      exact hm

theorem ofWidths?_eq (h : PrefixCode.isComplete code || PrefixCode.isTrivial code) :
    PrefixCode.ofWidths? code = some (.build code) :=
  if_pos h

theorem widthCode?_eq (h : PrefixCode.isComplete (inOrder written)) :
    Inflate.widthCode? written = some (.build (inOrder written)) :=
  if_pos h

theorem Header.fit (h : Header widths taken) : widths.Fit where
  literals := PrefixCode.share_le h.usable.left
  distances := PrefixCode.share_le h.usable.right

theorem Header.reads (h : Header widths taken) : Reads Inflate.codes? taken widths.codes := by
  have ⟨⟨hl, hl'⟩, ⟨hd, hd'⟩, ⟨ht, ht'⟩, written, runs, hw, hw', hv, hc, hr, he⟩ := h
  have hm : Inflate.maxLiterals = 286 ∧ Inflate.maxDistances = 30 := ⟨rfl, rfl⟩
  subst he
  intro bits more hb
  simp only [List.append_assoc] at hb
  have ⟨_, h₁, hb⟩ := @Bits.reads_number? _ 5 (by omega) bits _ hb
  have ⟨_, h₂, hb⟩ := @Bits.reads_number? _ 5 (by omega) _ _ hb
  have ⟨_, h₃, hb⟩ := @Bits.reads_number? _ 4 (by omega) _ _ hb
  have ⟨_, h₄, hb⟩ := reads_numbers? hv _ _ hb
  have ⟨rest, h₅, hb⟩ := hr.read hc List.head?_nil (Nat.zero_add _) (Nat.lt_succ_self _) hb
  refine ⟨rest, ?_, hb⟩
  have hg : (widths.literals.length ≤ Inflate.maxLiterals &&
      widths.distances.length ≤ Inflate.maxDistances) := by
    simp [hl', hd']
  rw [List.length_append] at h₅
  simp only [Inflate.codes?, h₁, h₂, h₃, Option.bind_eq_bind, Option.bind_some,
    Nat.sub_add_cancel hl, Nat.sub_add_cancel hd, Nat.sub_add_cancel hw, hg, h₄,
    widthCode?_eq hc, h₅, guard, if_true, List.reverse_nil, List.nil_append, List.take_left,
    List.drop_left, ofWidths?_eq ht, ofWidths?_eq ht']
  rfl

theorem stored?_storedBytes (h : block.length ≤ maxStored) :
    Inflate.stored? (storedBytes block ++ rest) = some (block, rest) := by
  have hm : maxStored = 0xFFFF := rfl
  have hl : (UInt8.ofNat (block.length % 0x100)).toNat +
      0x100 * (UInt8.ofNat (block.length / 0x100)).toNat = block.length := by
    simp only [UInt8.toNat_ofNat']
    omega
  have hc : (UInt8.ofNat ((maxStored - block.length) % 0x100)).toNat +
      0x100 * (UInt8.ofNat ((maxStored - block.length) / 0x100)).toNat =
        maxStored - block.length := by
    simp only [UInt8.toNat_ofNat']
    omega
  simp only [storedBytes, littleEndian, List.cons_append, List.nil_append, Inflate.stored?]
  rw [hl, hc, List.take_left, List.drop_left, if_pos ⟨by omega, rfl⟩]

theorem Block.kind_lt (h : Block kind start taken out final) : kind < 2 ^ 2 := by
  cases h <;> decide

theorem Block.read (h : Block kind start taken out final) (hb : bits.Holds (taken ++ more))
    (hs : (start + taken.length + more.length) % 8 = 0) :
    ∃ rest, Inflate.block? kind bits out = some (rest, final) ∧ rest.Holds more := by
  cases h
  case stored pad block hp hl ha =>
    rw [List.append_assoc] at hb
    rw [List.length_append, length_bitsOf] at hs
    have ⟨rest, hr, hm⟩ := hb.aligned hp (by omega)
    refine ⟨.ofBytes rest, ?_, hm ▸ Bits.holds_ofBytes rest⟩
    simp only [Inflate.block?, hr, stored?_storedBytes hl]
    rfl
  case fixed hs =>
    have hz := hb.size_eq
    rw [List.length_append] at hz
    exact hs.read Widths.fit_fixed (by omega) hb
  case dynamic hh hs =>
    rw [List.append_assoc] at hb
    have ⟨middle, hr, hb⟩ := hh.reads _ _ hb
    have hz := hb.size_eq
    rw [List.length_append] at hz
    have ⟨rest, hm, hb⟩ := hs.read hh.fit (by omega : _ ≤ middle.size) hb
    exact ⟨rest, by rw [Inflate.block?, hr]; exact hm, hb⟩

-- The fuel lasts: each block takes bits. `pad` fills the last byte.
theorem Blocks.read (h : Blocks start taken out final) (hf : taken.length ≤ fuel)
    (hb : bits.Holds (taken ++ (pad ++ bitsOf rest))) (hp : pad.length < 8)
    (hs : (start + taken.length + pad.length) % 8 = 0) :
    Inflate.blocks? fuel bits out = some (rest, final) := by
  have hl := length_bitsOf rest
  induction h generalizing fuel bits
  case last hk =>
    simp only [List.length_cons, List.length_append, length_field] at hf hs
    rw [List.cons_append, List.append_assoc] at hb
    match fuel with
    | fuel + 1 =>
      have ⟨_, h₁, hb⟩ := hb.next?
      have ⟨_, h₂, hb⟩ := Bits.reads_number? hk.kind_lt _ _ hb
      have ⟨_, h₃, hb⟩ := hk.read hb (by rw [List.length_append]; omega)
      simp only [Inflate.blocks?, h₁, h₂, h₃, Option.bind_eq_bind, Option.bind_some,
        hb.aligned_eq hp]
      rfl
  case more hk _ hi =>
    simp only [List.length_cons, List.length_append, length_field] at hf hs
    rw [List.cons_append, List.append_assoc, List.append_assoc] at hb
    match fuel with
    | fuel + 1 =>
      have ⟨_, h₁, hb⟩ := hb.next?
      have ⟨_, h₂, hb⟩ := Bits.reads_number? hk.kind_lt _ _ hb
      have ⟨_, h₃, hb⟩ := hk.read hb (by simp only [List.length_append]; omega)
      have hm := @hi _ fuel (by omega) hb (by omega)
      simp only [Inflate.blocks?, h₁, h₂, h₃, Option.bind_eq_bind, Option.bind_some, hm]
      rfl

end Format

theorem inflate?_of_blocks (h : Format.Blocks 0 taken .empty out)
    (hb : bitsOf body = taken ++ pad) (hp : pad.length < 8) (rest : List UInt8) :
    inflate? (body ++ rest) = some (rest, out) := by
  have hl := congrArg List.length hb
  rw [length_bitsOf, List.length_append] at hl
  have hh := Bits.holds_ofBytes (body ++ rest)
  have hz := hh.size_eq
  rw [bitsOf_append, hb, List.append_assoc] at hh
  rw [length_bitsOf, List.length_append] at hz
  exact h.read (by omega) hh hp (by omega)

-- What follows the stream does not matter.
theorem Stream.decompress?_append (h : Stream bytes out) (rest : List UInt8) :
    decompress? (bytes ++ rest) = some out := by
  have ⟨method, flags, body, taken, pad, he, hh, hb, hp, ht⟩ := h
  have hi := inflate?_of_blocks ht hb hp (bigEndian (adler out) ++ rest)
  rw [he, List.append_assoc, List.cons_append, List.cons_append, decompress?, if_pos hh, hi]
  exact if_pos rfl

theorem Stream.decompress? (h : Stream bytes out) : Zlib.decompress? bytes = some out := by
  have hd := h.decompress?_append []
  rwa [List.append_nil] at hd

end Entitlement.Zlib
