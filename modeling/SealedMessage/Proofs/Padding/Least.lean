import Mathlib
import SealedMessage.Proofs.Padding.Bucket

/-! Rounding up goes to the least bucket that is not below a length. So longer messages never have a
smaller bucket, two buckets that differ are at least 32 bytes apart, and less than a chunk is
wasted: at most 31 bytes up to 256, and less than a quarter of the length above. -/

namespace SealedMessage.Padding

theorem chunkLen_of_le {n : ℕ} (h : n ≤ 256) : chunkLen n = 32 := by
  have hlog : Nat.log2 (n - 1) + 1 ≤ 8 := by
    by_cases h₁ : n - 1 = 0
    · rw [h₁]
      decide
    · exact (Nat.log2_lt h₁).2 (by omega)
  rw [chunkLen_eq, max_eq_left hlog]
  rfl

/-- Above 256 there are four chunks up to a power of two, and four more up to the next. -/
theorem chunkLen_of_gt {n : ℕ} (h : 256 < n) :
    ∃ j, 9 ≤ j ∧ chunkLen n = 2 ^ (j - 3) ∧ 4 * chunkLen n < n ∧ n ≤ 8 * chunkLen n := by
  have hlog : 8 ≤ Nat.log2 (n - 1) := (Nat.le_log2 (by omega)).2 (by omega)
  have hlo := Nat.log2_self_le (n := n - 1) (by omega)
  have hhi := Nat.lt_log2_self (n := n - 1)
  rw [chunkLen_eq, max_eq_right (by omega)]
  generalize Nat.log2 (n - 1) = e at hlog hlo hhi ⊢
  have h4 : 2 ^ e = 4 * 2 ^ (e + 1 - 3) := by
    rw [show (4 : ℕ) = 2 ^ 2 from rfl, ← pow_add]
    exact congrArg (2 ^ ·) (by omega)
  rw [pow_succ] at hhi
  exact ⟨e + 1, by omega, rfl, by omega, by omega⟩

theorem isBucket_bucketLen (n : ℕ) : IsBucket (bucketLen n) := by
  by_cases h : n ≤ 32
  · rw [bucketLen, if_pos h]
    exact .fine 1 le_rfl (by decide)
  rw [bucketLen, if_neg h]
  rcases le_or_gt n 256 with h₈ | h₈
  · rw [chunkLen_of_le h₈]
    exact .fine ((n - 1) / 32 + 1) (by omega) (by omega)
  · obtain ⟨j, hj, hc, hlo, hhi⟩ := chunkLen_of_gt h₈
    have hpos := chunkLen_pos n
    have hq : 4 ≤ (n - 1) / chunkLen n := (Nat.le_div_iff_mul_le hpos).2 (by omega)
    have hq' : (n - 1) / chunkLen n < 8 := (Nat.div_lt_iff_lt_mul hpos).2 (by omega)
    generalize (n - 1) / chunkLen n = q at hq hq' ⊢
    rw [hc, mul_comm]
    exact .coarse (q + 1) j hj (by omega) (by omega)

theorem IsBucket.pos {b : ℕ} (h : IsBucket b) : 0 < b := by
  cases h with
  | fine i pos le => omega
  | coarse i j ge lo hi => exact Nat.mul_pos (by omega) (by positivity)

theorem IsBucket.thirtyTwo_dvd {b : ℕ} (h : IsBucket b) : 32 ∣ b := by
  cases h with
  | fine i pos le => exact dvd_mul_right 32 i
  | coarse i j ge lo hi =>
    exact (pow_dvd_pow 2 (by omega : 5 ≤ j - 3)).mul_left i

/-- Buckets are whole numbers of the chunks of every length up to them. -/
theorem IsBucket.chunkLen_dvd {b n : ℕ} (hb : IsBucket b) (h : 32 < n) (hn : n ≤ b) :
    chunkLen n ∣ b := by
  cases hb with
  | fine i pos le =>
    have h5 : chunkLen n ∣ 2 ^ (8 - 3) := Padding.chunkLen_dvd h le_rfl (by omega)
    exact h5.mul_right i
  | coarse i j ge lo hi =>
    have hj : 2 ^ j = 8 * 2 ^ (j - 3) := by
      rw [show (8 : ℕ) = 2 ^ 3 from rfl, ← pow_add]
      exact congrArg (2 ^ ·) (by omega)
    have hle : n ≤ 2 ^ j := hn.trans (hj ▸ Nat.mul_le_mul_right _ hi)
    exact (Padding.chunkLen_dvd h (by omega) hle).mul_left i

theorem bucketLen_le_of_isBucket {n b : ℕ} (hb : IsBucket b) (hn : n ≤ b) : bucketLen n ≤ b := by
  by_cases h : n ≤ 32
  · rw [bucketLen, if_pos h]
    exact Nat.le_of_dvd hb.pos hb.thirtyTwo_dvd
  · exact bucketLen_le_of_dvd (not_le.1 h) (hb.chunkLen_dvd (not_le.1 h) hn) hn

theorem bucketLen_mono {m n : ℕ} (h : m ≤ n) : bucketLen m ≤ bucketLen n :=
  bucketLen_le_of_isBucket (isBucket_bucketLen n) (h.trans (le_bucketLen n))

theorem thirtyTwo_dvd_bucketLen (n : ℕ) : 32 ∣ bucketLen n :=
  (isBucket_bucketLen n).thirtyTwo_dvd

theorem isLeast_bucketLen (n : ℕ) : IsLeast {b | IsBucket b ∧ n ≤ b} (bucketLen n) :=
  ⟨⟨isBucket_bucketLen n, le_bucketLen n⟩, fun _ hb => bucketLen_le_of_isBucket hb.1 hb.2⟩

/-- A bucket is its own. -/
theorem IsBucket.bucketLen_eq {b : ℕ} (h : IsBucket b) : bucketLen b = b :=
  le_antisymm (bucketLen_le_of_isBucket h le_rfl) (le_bucketLen b)

theorem bucketLen_lt_add_chunkLen {n : ℕ} (h : 32 < n) : bucketLen n < n + chunkLen n := by
  have hmul := Nat.mul_div_le (n - 1) (chunkLen n)
  rw [bucketLen, if_neg (not_le.2 h), Nat.mul_succ]
  omega

theorem bucketLen_sub_le {n : ℕ} (h₁ : 1 ≤ n) (h₂ : n ≤ 256) : bucketLen n - n ≤ 31 := by
  by_cases h : n ≤ 32
  · rw [bucketLen, if_pos h]
    omega
  · have hlt := bucketLen_lt_add_chunkLen (not_le.1 h)
    rw [chunkLen_of_le h₂] at hlt
    omega

theorem four_mul_bucketLen_sub_lt {n : ℕ} (h : 256 < n) : 4 * (bucketLen n - n) < n := by
  obtain ⟨-, -, -, hlo, -⟩ := chunkLen_of_gt h
  have hlt := bucketLen_lt_add_chunkLen (n := n) (by omega)
  omega

/-- Up to 2^63, a length is rounded up to the least bucket that is not below it. So the rounding is
monotone and leaves buckets alone, and what it adds is less than a chunk. -/
theorem paddedLen_isLeast_bucket (n : Word) (h : n.toNat ≤ 2 ^ 63) :
    ∃ r, paddedLen n = .ok r ∧ IsLeast {b | IsBucket b ∧ n.toNat ≤ b} r.toNat ∧
      (∀ m ≤ n, ∃ s, paddedLen m = .ok s ∧ s ≤ r) ∧
      paddedLen r = .ok r ∧
      n ≤ r ∧
      32 ∣ r.toNat ∧
      (1 ≤ n.toNat → n.toNat ≤ 256 → r.toNat - n.toNat ≤ 31) ∧
      (256 < n.toNat → 4 * (r.toNat - n.toNat) < n.toNat) := by
  obtain ⟨r, hr, vr⟩ := paddedLen_eq h
  refine ⟨r, hr, ?_, ?_, ?_, ?_, ?_, ?_, ?_⟩
  · rw [vr]
    exact isLeast_bucketLen n.toNat
  · intro m hm
    have hle : m.toNat ≤ n.toNat := UInt64.le_iff_toNat_le.1 hm
    obtain ⟨s, hs, vs⟩ := paddedLen_eq (hle.trans h)
    refine ⟨s, hs, UInt64.le_iff_toNat_le.2 ?_⟩
    rw [vs, vr]
    exact bucketLen_mono hle
  · obtain ⟨r', hr', vr'⟩ := paddedLen_eq (n := r)
      (vr ▸ bucketLen_le_two_pow (by decide : 8 ≤ 63) h)
    obtain rfl : r' = r := UInt64.toNat_inj.1 (by
      rw [vr', vr, (isBucket_bucketLen n.toNat).bucketLen_eq])
    exact hr'
  · exact UInt64.le_iff_toNat_le.2 (vr ▸ le_bucketLen n.toNat)
  · rw [vr]
    exact thirtyTwo_dvd_bucketLen n.toNat
  · rw [vr]
    exact bucketLen_sub_le
  · rw [vr]
    exact four_mul_bucketLen_sub_lt

/-- The first lengths after a bucket and after a power of two, where the most is added, and the
largest bucket of a word. -/
theorem paddedLen_isLeast_bucket_three :
    (paddedLen 33 = .ok 64 ∧ 64 - 33 ≤ 31) ∧
      ((257 : Word).toNat ≤ 2 ^ 63 ∧ paddedLen 257 = .ok 320 ∧
        IsLeast {b | IsBucket b ∧ 257 ≤ b} 320 ∧ paddedLen 320 = .ok 320 ∧
        4 * (320 - 257) < 257) ∧
      paddedLen (.ofNat (2 ^ 63)) = .ok (.ofNat (2 ^ 63)) ∧
      IsLeast {b | IsBucket b ∧ 2 ^ 63 ≤ b} (2 ^ 63) := by
  have h63 : (UInt64.ofNat (2 ^ 63)).toNat = 2 ^ 63 := rfl
  obtain ⟨r₁, hr₁, -, -, -, -, -, hfine, -⟩ := paddedLen_isLeast_bucket 33 (by decide)
  obtain ⟨r₂, hr₂, hleast₂, -, hself, -, -, -, hcoarse⟩ := paddedLen_isLeast_bucket 257 (by decide)
  obtain ⟨r₃, hr₃, hleast₃, -⟩ := paddedLen_isLeast_bucket (.ofNat (2 ^ 63)) h63.le
  obtain rfl := Except.ok.inj (hr₁.symm.trans (show paddedLen 33 = .ok 64 by decide))
  obtain rfl := Except.ok.inj (hr₂.symm.trans (show paddedLen 257 = .ok 320 by decide))
  obtain rfl := Except.ok.inj (hr₃.symm.trans
    (show paddedLen (.ofNat (2 ^ 63)) = .ok (.ofNat (2 ^ 63)) by decide))
  rw [h63] at hleast₃
  exact ⟨⟨hr₁, hfine (by decide) (by decide)⟩,
    ⟨by decide, hr₂, hleast₂, hself, hcoarse (by decide)⟩, hr₃, hleast₃⟩

end SealedMessage.Padding
