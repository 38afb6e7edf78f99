import Mathlib
import SealedMessage.Padding.Bucket
import SealedMessage.Word.Exact

/-! The buckets as a set of numbers, and the rounding on words, operation by operation: up to 2^63
it has no fault and gives `bucketLen`. -/

namespace SealedMessage.Padding

/-- Eight buckets of every 32 bytes, then four between one power of two and the next. -/
inductive IsBucket : Nat → Prop where
  | fine (i : Nat) (pos : 1 ≤ i) (le : i ≤ 8) : IsBucket (32 * i)
  | coarse (i j : Nat) (ge : 9 ≤ j) (lo : 5 ≤ i) (hi : i ≤ 8) : IsBucket (i * 2 ^ (j - 3))

theorem chunkLen_pos (n : Nat) : 0 < chunkLen n := by
  unfold chunkLen
  split <;> omega

theorem nextPower_eq (n : ℕ) : nextPower n = 2 ^ (Nat.log2 (n - 1) + 1) := Nat.one_shiftLeft _

/-- The operations of `paddedLen` above the smallest bucket, none of which has a fault. -/
structure Steps (n : Word) where
  last : Word
  exponent : Word
  power : Word
  chunk : Word
  full : Word
  count : Word
  size : Word
  last_eq : Word.sub n 1 = .ok last
  exponent_eq : Word.sub 64 (Word.leadingZeros last) = .ok exponent
  power_eq : Word.shiftLeft 1 exponent = .ok power
  chunk_eq : chunkBelow power = .ok chunk
  full_eq : Word.div last chunk = .ok full
  count_eq : Word.add full 1 = .ok count
  size_eq : Word.mul chunk count = .ok size

/-- Each operation gives what it gives on unbounded numbers. -/
structure Steps.IsExact {n : Word} (st : Steps n) : Prop where
  last : st.last.toNat = n.toNat - 1
  exponent : st.exponent.toNat = Nat.log2 (n.toNat - 1) + 1
  power : st.power.toNat = 2 ^ st.exponent.toNat
  chunk : st.chunk.toNat = if st.power.toNat ≤ 256 then 32 else st.power.toNat / 8
  full : st.full.toNat = st.last.toNat / st.chunk.toNat
  count : st.count.toNat = st.full.toNat + 1
  size : st.size.toNat = st.chunk.toNat * st.count.toNat

variable {n : Word}

theorem le_smallestBucket_iff : n ≤ smallestBucket ↔ n.toNat ≤ 32 := UInt64.le_iff_toNat_le

theorem Steps.paddedLen_eq (st : Steps n) (h : 32 < n.toNat) : paddedLen n = .ok st.size := by
  rw [paddedLen, if_neg (mt le_smallestBucket_iff.1 (not_le.2 h)), st.last_eq, ok_bind,
    st.exponent_eq, ok_bind, st.power_eq, ok_bind, st.chunk_eq, ok_bind, st.full_eq, ok_bind,
    st.count_eq, ok_bind, st.size_eq]

theorem Steps.IsExact.size_eq {st : Steps n} (hst : st.IsExact) (h : 32 < n.toNat) :
    st.size.toNat = bucketLen n.toNat := by
  have hpower : st.power.toNat = nextPower n.toNat := by
    rw [hst.power, hst.exponent, nextPower_eq]
  have hchunk : st.chunk.toNat = chunkLen n.toNat := by rw [hst.chunk, hpower, chunkLen]
  rw [bucketLen, if_neg (not_le.2 h), hst.size, hst.count, hst.full, hst.last, hchunk]

/-- The exponent has a value on every word, also where the shift by it has none. -/
theorem exists_exponent (h : 32 < n.toNat) :
    ∃ last exponent, Word.sub n 1 = .ok last ∧
      Word.sub 64 (Word.leadingZeros last) = .ok exponent ∧ last.toNat = n.toNat - 1 ∧
      exponent.toNat = Nat.log2 (n.toNat - 1) + 1 := by
  obtain ⟨last, hlast, vlast⟩ := Word.sub_of_le (a := n) (b := 1) (by rw [UInt64.toNat_one]; omega)
  rw [UInt64.toNat_one] at vlast
  have hz := Word.toNat_leadingZeros (a := last) (by omega)
  have hlog : Nat.log2 last.toNat < 64 := (Nat.log2_lt (by omega)).2 last.toNat_lt
  have h64 : (64 : Word).toNat = 64 := rfl
  obtain ⟨e, he, ve⟩ := Word.sub_of_le (a := 64) (b := Word.leadingZeros last) (by omega)
  exact ⟨last, e, hlast, he, vlast, by rw [← vlast]; omega⟩

theorem exponent_lt_iff {n : ℕ} (h : 32 < n) : Nat.log2 (n - 1) + 1 < 64 ↔ n ≤ 2 ^ 63 := by
  have hlog := Nat.log2_lt (n := n - 1) (k := 63) (by omega)
  omega

theorem exists_chunk (p : Word) :
    ∃ c, chunkBelow p = .ok c ∧ c.toNat = if p.toNat ≤ 256 then 32 else p.toNat / 8 := by
  have hiff : p ≤ 256 ↔ p.toNat ≤ 256 := UInt64.le_iff_toNat_le
  unfold chunkBelow
  by_cases hp : p ≤ 256
  · exact ⟨32, if_pos hp, by rw [if_pos (hiff.1 hp)]; rfl⟩
  · obtain ⟨c, hc, vc⟩ := Word.div_of_pos (a := p) (b := 8) (by decide)
    exact ⟨c, by rw [if_neg hp, hc], by rw [if_neg (mt hiff.2 hp), vc]; rfl⟩

theorem exists_steps (h : 32 < n.toNat) (h' : n.toNat ≤ 2 ^ 63) : ∃ st : Steps n, st.IsExact := by
  obtain ⟨last, e, hlast, he, vlast, ve⟩ := exists_exponent h
  have hlt : e.toNat < 64 := by rw [ve]; exact (exponent_lt_iff h).2 h'
  obtain ⟨p, hp, vp⟩ := Word.one_shiftLeft_of_lt hlt
  obtain ⟨c, hc, vc⟩ := exists_chunk p
  have hple : p.toNat ≤ 2 ^ 63 := vp ▸ Nat.pow_le_pow_right (by decide) (by omega)
  have hpos : 0 < c.toNat := by rw [vc]; split <;> omega
  have hle : c.toNat ≤ 2 ^ 60 := by rw [vc]; split <;> omega
  have hmul := Nat.mul_div_le last.toNat c.toNat
  have hdiv := Nat.div_le_self last.toNat c.toNat
  have h1 : (1 : Word).toNat = 1 := rfl
  have hsize : UInt64.size = 2 ^ 64 := rfl
  obtain ⟨q, hq, vq⟩ := Word.div_of_pos (a := last) (b := c) hpos
  obtain ⟨k, hk, vk⟩ := Word.add_of_lt (a := q) (b := 1) (by omega)
  -- the product is less than a chunk above the length
  obtain ⟨r, hr, vr⟩ := Word.mul_of_lt (a := c) (b := k) (by rw [vk, h1, vq, Nat.mul_succ]; omega)
  exact ⟨⟨last, e, p, c, q, k, r, hlast, he, hp, hc, hq, hk, hr⟩, vlast, ve, vp, vc, vq, vk, vr⟩

theorem paddedLen_eq (h : n.toNat ≤ 2 ^ 63) :
    ∃ r, paddedLen n = .ok r ∧ r.toNat = bucketLen n.toNat := by
  by_cases hn : n.toNat ≤ 32
  · refine ⟨smallestBucket, by rw [paddedLen, if_pos (le_smallestBucket_iff.2 hn)], ?_⟩
    rw [bucketLen, if_pos hn]
    rfl
  · have hn' : 32 < n.toNat := not_le.1 hn
    obtain ⟨st, hst⟩ := exists_steps hn' h
    exact ⟨st.size, st.paddedLen_eq hn', hst.size_eq hn'⟩

end SealedMessage.Padding
