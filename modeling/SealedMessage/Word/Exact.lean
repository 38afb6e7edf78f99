import Mathlib
import SealedMessage.Word

/-! Where nothing overflows, arithmetic on words is that of the numbers. -/

namespace SealedMessage.Word

theorem add_of_lt {a b : Word} (h : a.toNat + b.toNat < UInt64.size) :
    ∃ c, add a b = .ok c ∧ c.toNat = a.toNat + b.toNat := by
  refine ⟨a + b, by rw [add, if_pos h], ?_⟩
  rw [UInt64.toNat_add, Nat.mod_eq_of_lt h]

theorem sub_of_le {a b : Word} (h : b.toNat ≤ a.toNat) :
    ∃ c, sub a b = .ok c ∧ c.toNat = a.toNat - b.toNat := by
  have hle : b ≤ a := UInt64.le_iff_toNat_le.2 h
  exact ⟨a - b, by rw [sub, if_pos hle], UInt64.toNat_sub_of_le _ _ hle⟩

theorem mul_of_lt {a b : Word} (h : a.toNat * b.toNat < UInt64.size) :
    ∃ c, mul a b = .ok c ∧ c.toNat = a.toNat * b.toNat := by
  refine ⟨a * b, by rw [mul, if_pos h], ?_⟩
  rw [UInt64.toNat_mul, Nat.mod_eq_of_lt h]

theorem div_of_pos {a b : Word} (h : 0 < b.toNat) :
    ∃ c, div a b = .ok c ∧ c.toNat = a.toNat / b.toNat := by
  refine ⟨a / b, ?_, UInt64.toNat_div _ _⟩
  rw [div, if_neg]
  rintro rfl
  exact absurd h (by decide)

theorem one_shiftLeft_of_lt {n : Word} (h : n.toNat < 64) :
    ∃ c, shiftLeft 1 n = .ok c ∧ c.toNat = 2 ^ n.toNat := by
  refine ⟨1 <<< n, by rw [shiftLeft, if_pos (UInt64.lt_iff_toNat_lt.2 h)], ?_⟩
  have hp : 2 ^ n.toNat < 2 ^ 64 := Nat.pow_lt_pow_right (by decide) h
  rw [UInt64.toNat_shiftLeft, Nat.mod_eq_of_lt h, Nat.shiftLeft_eq, UInt64.toNat_one, Nat.one_mul,
    Nat.mod_eq_of_lt hp]

theorem toNat_leadingZeros {a : Word} (h : 0 < a.toNat) :
    (leadingZeros a).toNat = 63 - Nat.log2 a.toNat := by
  have hne : a.toBitVec ≠ 0#64 := by
    intro e
    have : a.toNat = 0 := by rw [← UInt64.toNat_toBitVec, e]; rfl
    omega
  have hlt := BitVec.toNat_lt_two_pow_sub_clz (x := a.toBitVec)
  have hle := BitVec.two_pow_sub_clz_le_toNat_of_ne_zero (by omega) hne
  have hz : a.toBitVec.clz.toNat < 64 := by
    simpa [BitVec.lt_def] using BitVec.clz_lt_iff_ne_zero.2 hne
  have hdef : (leadingZeros a).toNat = a.toBitVec.clz.toNat := rfl
  have hlog : Nat.log2 a.toNat = 63 - a.toBitVec.clz.toNat := by
    rw [Nat.log2_eq_iff (by omega)]
    refine ⟨by simpa using hle, ?_⟩
    rw [show 63 - a.toBitVec.clz.toNat + 1 = 64 - a.toBitVec.clz.toNat by omega]
    exact hlt
  omega

end SealedMessage.Word
