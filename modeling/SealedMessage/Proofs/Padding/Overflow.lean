import Mathlib
import SealedMessage.Proofs.Padding.Frame

/-! The rounding on words has a fault exactly above 2^63, where the next power of two is no word,
and then in the shift to that power. Padding and unpadding stay far below. -/

namespace SealedMessage.Padding

variable {n : Word}

/-- Above 2^63 the exponent is the width of a word. -/
theorem exponent_eq_of_gt (h : 2 ^ 63 < n.toNat) :
    ∃ last, Word.sub n 1 = .ok last ∧ Word.sub 64 (Word.leadingZeros last) = .ok 64 := by
  obtain ⟨last, e, hlast, he, -, ve⟩ := exists_exponent (n := n) (by omega)
  have hn := n.toNat_lt
  -- the length less one has all 64 bits, so no zeros lead
  have hge := mt (exponent_lt_iff (n := n.toNat) (by omega)).1 (not_le.2 h)
  have hle : Nat.log2 (n.toNat - 1) < 64 := (Nat.log2_lt (by omega)).2 (by omega)
  obtain rfl : e = 64 := UInt64.toNat_inj.1 (by rw [ve]; change _ = 64; omega)
  exact ⟨last, hlast, he⟩

theorem paddedLen_of_gt (h : 2 ^ 63 < n.toNat) : paddedLen n = .error .shiftOverflow := by
  obtain ⟨last, hlast, he⟩ := exponent_eq_of_gt h
  rw [paddedLen, if_neg (mt le_smallestBucket_iff.1 (by omega)), hlast, ok_bind, he, ok_bind]
  rfl

theorem paddedLen_eq_error_iff : (∃ f, paddedLen n = .error f) ↔ 2 ^ 63 < n.toNat := by
  constructor
  · rintro ⟨f, hf⟩
    by_contra hle
    obtain ⟨r, hr, -⟩ := paddedLen_eq (not_lt.1 hle)
    cases hr.symm.trans hf
  · intro h
    exact ⟨_, paddedLen_of_gt h⟩

section Calls

variable {round : Word → Checked Word}

theorem round_ofNat_of_le (h : ∀ n, n.toNat ≤ 65535 → round n = paddedLen n) {k : ℕ}
    (hk : k ≤ 65535) : round (UInt64.ofNat k) = paddedLen (UInt64.ofNat k) :=
  h _ (by rwa [toNat_ofNat_of_le hk])

theorem padBy_eq (h : ∀ n, n.toNat ≤ 65535 → round n = paddedLen n) (m : Bytes) :
    padBy round m = pad m := by
  by_cases hm : 1 ≤ m.length ∧ m.length ≤ 65535
  · rw [pad, padBy, padBy, round_ofNat_of_le h hm.2]
  · have hc : checkLength m.length = .error (.plaintextLength m.length) := if_neg hm
    rw [pad, padBy, padBy, hc, Attempt.liftM_refusal_error, Attempt.refuse_bind,
      Attempt.refuse_bind]

theorem unpadBy_eq (h : ∀ n, n.toNat ≤ 65535 → round n = paddedLen n) (x : Bytes) :
    unpadBy round x = unpad x := by
  rcases x with _ | ⟨hi, _ | ⟨lo, body⟩⟩
  · rfl
  · rfl
  · rw [unpad, unpadBy, unpadBy, round_ofNat_of_le h (Nat.le_of_lt_succ (toNat_prefix_lt hi lo))]

end Calls

/-- The rounding has a fault exactly above 2^63, and only in the shift. Up to 2^63 every operation
has the value that it has on unbounded numbers, and lengths above 65535 are not rounded at all when
a message is padded or unpadded: the rounding could be anything there. -/
theorem paddedLen_overflows_above_two_pow (n : Word) :
    ((∃ f, paddedLen n = .error f) ↔ 2 ^ 63 < n.toNat) ∧
    (2 ^ 63 < n.toNat → ∃ last, Word.sub n 1 = .ok last ∧
      Word.sub 64 (Word.leadingZeros last) = .ok 64 ∧
      Word.shiftLeft 1 64 = .error .shiftOverflow ∧ paddedLen n = .error .shiftOverflow) ∧
    (32 < n.toNat → n.toNat ≤ 2 ^ 63 →
      ∃ st : Steps n, st.IsExact ∧ paddedLen n = .ok st.size) ∧
    (n.toNat ≤ 2 ^ 63 → ∃ r, paddedLen n = .ok r ∧ r.toNat = bucketLen n.toNat) ∧
    (∀ round : Word → Checked Word, (∀ k, k.toNat ≤ 65535 → round k = paddedLen k) →
      (∀ m, padBy round m = pad m) ∧ ∀ x, unpadBy round x = unpad x) ∧
    Fault.shiftOverflow.message = "attempt to shift left with overflow" := by
  refine ⟨paddedLen_eq_error_iff, fun h => ?_, fun h h' => ?_, paddedLen_eq, fun round h => ?_, rfl⟩
  · obtain ⟨last, hlast, he⟩ := exponent_eq_of_gt h
    exact ⟨last, hlast, he, rfl, paddedLen_of_gt h⟩
  · obtain ⟨st, hst⟩ := exists_steps h h'
    exact ⟨st, hst, st.paddedLen_eq h⟩
  · exact ⟨padBy_eq h, unpadBy_eq h⟩

/-- The last length that has a bucket, the first that has none, and a rounding that has a fault on
every length above 65535. -/
theorem paddedLen_overflows_above_two_pow_boundary :
    let n : Word := .ofNat (2 ^ 63)
    let round : Word → Checked Word :=
      fun k => if k.toNat ≤ 65535 then paddedLen k else .error .unreachable
    (n.toNat = 2 ^ 63 ∧ ∃ st : Steps n, st.IsExact ∧ st.size.toNat = 2 ^ 63) ∧
      ((n + 1).toNat = 2 ^ 63 + 1 ∧ paddedLen (n + 1) = .error .shiftOverflow) ∧
      (∀ k, k.toNat ≤ 65535 → round k = paddedLen k) ∧
      padBy round [104, 105] = pad [104, 105] ∧
      unpadBy round [255, 255] = Attempt.refuse .decryptionFailed := by
  intro n round
  have hn : n.toNat = 2 ^ 63 := rfl
  have hn' : (n + 1).toNat = 2 ^ 63 + 1 := rfl
  have hround : ∀ k, k.toNat ≤ 65535 → round k = paddedLen k := fun k hk => if_pos hk
  obtain ⟨-, -, hsteps, -, hcalls, -⟩ := paddedLen_overflows_above_two_pow n
  obtain ⟨-, hgt, -⟩ := paddedLen_overflows_above_two_pow (n + 1)
  obtain ⟨st, hst, hsize⟩ := hsteps (by rw [hn]; decide) hn.le
  obtain ⟨-, -, -, -, hfault⟩ := hgt (by rw [hn']; decide)
  obtain ⟨hpad, hunpad⟩ := hcalls round hround
  have hmax : paddedLen n = .ok n := by decide
  have hshort : unpad [255, 255] = Attempt.refuse .decryptionFailed := by decide
  refine ⟨⟨hn, st, hst, ?_⟩, ⟨hn', hfault⟩, hround, hpad _, (hunpad _).trans hshort⟩
  rw [← Except.ok.inj (hmax.symm.trans hsize), hn]

end SealedMessage.Padding
