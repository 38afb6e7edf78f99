import Mathlib
import SealedMessage.Padding.Rounding

/-! The bucket of a length is not below the length, and a power of two that is not below the length
is not below its bucket. -/

namespace SealedMessage.Padding

theorem le_bucketLen (n : ℕ) : n ≤ bucketLen n := by
  unfold bucketLen
  split_ifs with h
  · exact h
  · have := Nat.lt_mul_div_succ (n - 1) (chunkLen_pos n)
    omega

theorem thirtyTwo_le_bucketLen (n : ℕ) : 32 ≤ bucketLen n := by
  by_cases h : n ≤ 32
  · rw [bucketLen, if_pos h]
  · exact (not_le.1 h).le.trans (le_bucketLen n)

/-- Chunks are powers of two, from 32 on. -/
theorem chunkLen_eq (n : ℕ) : chunkLen n = 2 ^ (max 8 (Nat.log2 (n - 1) + 1) - 3) := by
  have h8 : (256 : ℕ) = 2 ^ 8 := rfl
  unfold chunkLen
  rw [nextPower_eq, h8]
  split_ifs with h
  · rw [max_eq_left ((Nat.pow_le_pow_iff_right (by decide : 1 < 2)).1 h)]
    rfl
  · have hlt := (Nat.pow_lt_pow_iff_right (by decide : 1 < 2)).1 (not_le.1 h)
    rw [max_eq_right hlt.le, show (8 : ℕ) = 2 ^ 3 from rfl, Nat.pow_div (by omega) (by decide)]

/-- An eighth of a power of two that is not below `n` is a whole number of chunks. -/
theorem chunkLen_dvd {n k : ℕ} (h : 32 < n) (h8 : 8 ≤ k) (hk : n ≤ 2 ^ k) :
    chunkLen n ∣ 2 ^ (k - 3) := by
  have hlog : Nat.log2 (n - 1) < k := (Nat.log2_lt (by omega)).2 (by omega)
  rw [chunkLen_eq]
  exact pow_dvd_pow 2 (by omega)

/-- A whole number of chunks that is not below `n` is not below its bucket. -/
theorem bucketLen_le_of_dvd {n b : ℕ} (h : 32 < n) (hc : chunkLen n ∣ b) (hb : n ≤ b) :
    bucketLen n ≤ b := by
  obtain ⟨q, rfl⟩ := hc
  have hdiv : (n - 1) / chunkLen n < q := Nat.div_lt_of_lt_mul (by omega)
  rw [bucketLen, if_neg (not_le.2 h)]
  exact Nat.mul_le_mul_left _ hdiv

theorem bucketLen_le_two_pow {n k : ℕ} (h8 : 8 ≤ k) (hk : n ≤ 2 ^ k) : bucketLen n ≤ 2 ^ k := by
  by_cases h : n ≤ 32
  · rw [bucketLen, if_pos h]
    exact Nat.pow_le_pow_right (by decide : 0 < 2) (by omega : 5 ≤ k)
  · have hdvd := chunkLen_dvd (not_le.1 h) h8 hk
    exact bucketLen_le_of_dvd (not_le.1 h) (hdvd.trans (pow_dvd_pow 2 (Nat.sub_le k 3))) hk

theorem bucketLen_le {n : ℕ} (h : n ≤ 65535) : bucketLen n ≤ 65536 :=
  bucketLen_le_two_pow (by decide : 8 ≤ 16) (by omega)

end SealedMessage.Padding
