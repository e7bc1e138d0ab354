import Entitlement.Decimal.Shortest
import Mathlib.Tactic.Common
/-!
The shortest decimal of a number other than zero is not zero either: zero lies outside of the
neighbourhood of such a number, and the finest grid that is tried has a point below it.
-/

namespace Entitlement.Decimal

namespace Neighbourhood

variable {around : Neighbourhood} {k : Int} {n grids : Nat}

theorem not_holds_zero (h : 0 < around.lower) : around.holds k 0 = false := by
  have hl : 0 < scaled k around.lower := Nat.mul_pos h (Nat.pow_pos (by decide))
  have hz : around.gridPoint k 0 = 0 := by simp [gridPoint]
  simp only [holds, hz]
  split
  case isTrue => simp [Nat.not_le.mpr hl]
  case isFalse => simp

theorem holds_of_pick? (h : around.pick? k = some n) : around.holds k n := by
  rw [pick?] at h
  dsimp only at h
  split at h
  case h_1 => exact nomatch h
  case h_2 hb _ => exact Option.some.inj h ▸ hb
  case h_3 _ ha => exact Option.some.inj h ▸ ha
  case h_4 hb ha =>
    split_ifs at h
    case pos => exact Option.some.inj h ▸ hb
    case pos => exact Option.some.inj h ▸ ha
    case pos => exact Option.some.inj h ▸ hb
    case neg => exact Option.some.inj h ▸ ha

theorem pick?_pos (hl : 0 < around.lower) (h : around.pick? k = some n) : 0 < n := by
  refine Nat.pos_of_ne_zero ?_
  rintro rfl
  exact Bool.false_ne_true ((not_holds_zero hl).symm.trans (holds_of_pick? h))

-- On the finest grid the point below the middle is not zero.
def Reaches (around : Neighbourhood) (k : Int) : Prop :=
  around.gridPoint k 1 ≤ scaled k around.middle

theorem search_pos (hl : 0 < around.lower) (hd : 0 < around.denominator)
    (hr : around.Reaches (k - grids)) : 0 < (around.search grids k).digits := by
  induction grids generalizing k
  case zero =>
    have hu : 0 < around.gridPoint k 1 :=
      Nat.mul_pos (Nat.mul_pos Nat.one_pos (Nat.pow_pos (by decide))) hd
    rw [Int.natCast_zero, Int.sub_zero] at hr
    exact Nat.div_pos hr hu
  case succ grids hi =>
    rw [search]
    split
    case h_1 n hp => exact pick?_pos hl hp
    case h_2 =>
      apply hi
      rwa [Int.natCast_succ, Int.add_comm, ← Int.sub_sub] at hr

-- The first digit is where `magnitude` says, which is far above the finest grid.
theorem reaches_magnitude (hd : 0 < around.denominator)
    (hm : around.denominator ≤ around.middle * Nat.pow 10 340) :
    around.Reaches (around.magnitude - (17 : Nat)) := by
  have hs : (341 : Int) = (340 : Nat) + 1 := rfl
  rw [Reaches, gridPoint, scaled, magnitude, hs]
  generalize 340 = scale at *
  generalize hn : around.middle * Nat.pow 10 scale / around.denominator = n
  generalize hk : ((Nat.toDigits 10 n).length - (scale + 1) - (17 : Nat) : Int) = k
  have hl : 0 < (Nat.toDigits 10 n).length := Nat.length_toDigits_pos
  have hf : 10 ^ ((Nat.toDigits 10 n).length - 1) ≤ n := by
    by_cases h : 0 < (Nat.toDigits 10 n).length - 1
    case pos =>
      have ht := (Nat.length_toDigits_le_iff (n := n) (b := 10) (by decide) h).not
      exact Nat.not_lt.mp (ht.mp (by omega))
    case neg =>
      rw [Nat.eq_zero_of_not_pos h]
      exact hn ▸ Nat.div_pos hm hd
  generalize (Nat.toDigits 10 n).length = length at *
  have hg : 10 ^ (length - 1) * around.denominator ≤ around.middle * 10 ^ scale :=
    (Nat.le_div_iff_mul_le hd).mp (hn ▸ hf)
  have he : k.toNat + (scale + 17) = (length - 1) + (-k).toNat := by omega
  refine Nat.le_of_mul_le_mul_right (c := 10 ^ (scale + 17)) ?_ (Nat.pow_pos (by decide))
  calc 1 * 10 ^ k.toNat * around.denominator * 10 ^ (scale + 17)
      = 10 ^ (length - 1) * around.denominator * 10 ^ (-k).toNat := by
        rw [Nat.one_mul, Nat.mul_right_comm, ← Nat.pow_add, he, Nat.pow_add, Nat.mul_right_comm]
    _ ≤ around.middle * 10 ^ scale * 10 ^ (-k).toNat := Nat.mul_le_mul_right _ hg
    _ = around.middle * 10 ^ (-k).toNat * 10 ^ scale := Nat.mul_right_comm ..
    _ ≤ around.middle * 10 ^ (-k).toNat * 10 ^ (scale + 17) :=
        Nat.mul_le_mul_left _ (Nat.pow_le_pow_right (by decide) (by omega))

end Neighbourhood

-- The least exponent is that of the least number there is.
theorem pow_le_scale (hq : -1074 ≤ q) : Nat.pow 2 (2 - q).toNat ≤ Nat.pow 10 340 := by
  have hs : 340 = 17 * 20 := rfl
  have hb : (2 - q).toNat ≤ 54 * 20 := by omega
  generalize 340 = scale at *
  generalize 20 = groups at *
  calc 2 ^ (2 - q).toNat
    _ ≤ 2 ^ (54 * groups) := Nat.pow_le_pow_right (by decide) hb
    _ = (2 ^ 54) ^ groups := Nat.pow_mul ..
    _ ≤ (10 ^ 17) ^ groups := Nat.pow_le_pow_left (by decide) groups
    _ = 10 ^ scale := by rw [← Nat.pow_mul, hs]

theorem shortest_pos (hm : 0 < m) (hq : -1074 ≤ q) (nearerBelow : Bool) :
    0 < (shortest m q nearerBelow).digits := by
  have hu : 0 < Nat.pow 2 (q - 2).toNat := Nat.pow_pos (by decide)
  have hd : 0 < Nat.pow 2 (2 - q).toNat := Nat.pow_pos (by decide)
  have hl : 0 < (Neighbourhood.of m q nearerBelow).lower := by
    refine Nat.mul_pos ?_ hu
    split <;> omega
  refine Neighbourhood.search_pos hl hd (Neighbourhood.reaches_magnitude hd ?_)
  exact Nat.le_trans (pow_le_scale hq) (Nat.le_mul_of_pos_left _ (Nat.mul_pos (by omega) hu))

theorem toBits_injective : Function.Injective Float.toBits := by
  rintro ⟨⟨bits, valid⟩⟩ ⟨⟨bits', valid'⟩⟩ h
  cases (show bits = bits' from h)
  rfl

-- The two zeros are the only numbers that are equal to zero.
theorem toBits_of_ne_zero {x : Float} (h : ¬x == 0) :
    x.toBits ≠ 0 ∧ x.toBits ≠ 0x8000000000000000 := by
  constructor
  case left =>
    intro hx
    have hz : x = Float.ofBits 0 := toBits_injective (hx.trans (by decide +kernel))
    exact h (hz ▸ (by decide +kernel))
  case right =>
    intro hx
    have hz : x = Float.ofBits 0x8000000000000000 :=
      toBits_injective (hx.trans (by decide +kernel))
    exact h (hz ▸ (by decide +kernel))

theorem ofFloat_pos {x : Float} (h : ¬x == 0) : 0 < (ofFloat x).digits := by
  have ⟨hp, hn⟩ := toBits_of_ne_zero h
  have hp : x.toBits.toNat ≠ 0 := fun hx => hp (UInt64.toNat.inj hx)
  have hn : x.toBits.toNat ≠ 0x8000000000000000 := fun hx => hn (UInt64.toNat.inj hx)
  have hb : x.toBits.toNat < 0x10000000000000000 := x.toBits.toNat_lt
  rw [ofFloat]
  split
  case isTrue hz => exact shortest_pos (by omega) (by omega) _
  case isFalse hz => exact shortest_pos (by omega) (by omega) _

end Entitlement.Decimal
