import Mathlib
import SealedMessage.Curve.Point

/-! The prime of the field and the order of the curve are prime. A number `n` is prime if enough of
`n - 1` is factored and 2 has the right powers modulo `n`, and what this asks for is small enough to
be evaluated. -/

namespace SealedMessage.Curve

/-- The remainder of the power by the low `bits` binary digits of the exponent. -/
def powMod (n a : ℕ) : ℕ → ℕ → ℕ
  | 0, _ => 1
  | bits + 1, e =>
    let half := powMod n a bits (e / 2)
    if e % 2 = 1 then half * half % n * a % n else half * half % n

theorem powMod_modEq (n a : ℕ) {bits e : ℕ} (h : e < 2 ^ bits) :
    powMod n a bits e ≡ a ^ e [MOD n] := by
  induction bits generalizing e with
  | zero =>
    obtain rfl : e = 0 := by simpa using h
    rfl
  | succ bits ih =>
    have hsq := (ih (e := e / 2) (by omega)).mul (ih (e := e / 2) (by omega))
    rw [← pow_add] at hsq
    rw [powMod]
    split_ifs with ho
    · have he : e = e / 2 + e / 2 + 1 := by omega
      conv_rhs => rw [he, pow_succ]
      exact (Nat.mod_modEq _ _).trans (((Nat.mod_modEq _ _).trans hsq).mul_right a)
    · have he : e = e / 2 + e / 2 := by omega
      conv_rhs => rw [he]
      exact (Nat.mod_modEq _ _).trans hsq

/-- The primes `qs` divide `n - 1` with a product above the root of `n`, and the powers of 2 show
that the product divides the order of 2 modulo every prime factor of `n`. -/
def certifies (n : ℕ) (qs : List ℕ) : Bool :=
  decide (1 < n ∧ n < 2 ^ 256 ∧ n < qs.prod * qs.prod ∧ (n - 1) % qs.prod = 0 ∧
    powMod n 2 256 (n - 1) = 1 ∧
    ∀ q ∈ qs, Nat.gcd (powMod n 2 256 ((n - 1) / q) + (n - 1)) n = 1)

/-- A power that is one modulo a factor of `n` leaves that factor in the greatest common divisor. -/
theorem pow_ne_one_of_gcd {n r e : ℕ} (hr : r.Prime) (hrn : r ∣ n) (hn : 1 < n) (he : e < 2 ^ 256)
    (hg : Nat.gcd (powMod n 2 256 e + (n - 1)) n = 1) : (2 : ZMod r) ^ e ≠ 1 := by
  intro h
  have hpow : ((powMod n 2 256 e : ℕ) : ZMod r) = 1 := by
    rw [(ZMod.natCast_eq_natCast_iff _ _ _).2 ((powMod_modEq n 2 he).of_dvd hrn)]
    exact_mod_cast h
  have hdvd : r ∣ powMod n 2 256 e + (n - 1) := by
    rw [← ZMod.natCast_eq_zero_iff, Nat.cast_add, hpow, Nat.cast_sub hn.le,
      (ZMod.natCast_eq_zero_iff n r).2 hrn]
    ring
  exact hr.one_lt.ne' (Nat.dvd_one.1 (hg ▸ Nat.dvd_gcd hdvd hrn))

/-- Every prime factor of `n` is one more than a multiple of the product. -/
theorem prod_dvd_of_certifies {n r : ℕ} {qs : List ℕ} (hqs : ∀ q ∈ qs, q.Prime)
    (h : certifies n qs = true) (hr : r.Prime) (hrn : r ∣ n) : qs.prod ∣ r - 1 := by
  obtain ⟨hn, hbits, hsq, hmod, hone, hgcd⟩ := of_decide_eq_true h
  have : Fact r.Prime := ⟨hr⟩
  obtain ⟨c, hc⟩ := Nat.dvd_of_mod_eq_zero hmod
  have hpos : 0 < qs.prod := by
    rw [Nat.pos_iff_ne_zero]
    intro h0
    rw [h0] at hsq
    omega
  have hpow : ((2 : ZMod r) ^ c) ^ qs.prod = 1 := by
    have hm := (powMod_modEq n 2 (by omega : n - 1 < 2 ^ 256)).of_dvd hrn
    rw [hone, ← ZMod.natCast_eq_natCast_iff] at hm
    rw [← pow_mul, mul_comm, ← hc]
    exact_mod_cast hm.symm
  -- no prime factor can be left out of the product, so it is the order of `2 ^ c`
  have hord : orderOf ((2 : ZMod r) ^ c) = qs.prod := by
    refine orderOf_eq_of_pow_and_pow_div_prime hpos hpow fun q hq hdvd => ?_
    obtain ⟨q', hmem, hq'⟩ := (Prime.dvd_prod_iff hq.prime).1 hdvd
    obtain rfl := (Nat.prime_dvd_prime_iff_eq hq (hqs q' hmem)).1 hq'
    have hdiv : (n - 1) / q = c * (qs.prod / q) := by
      rw [hc, mul_comm, Nat.mul_div_assoc _ hdvd]
    rw [← pow_mul, ← hdiv]
    exact pow_ne_one_of_gcd hr hrn hn
      (lt_of_le_of_lt (Nat.div_le_self _ _) (by omega)) (hgcd q hmem)
  rw [← hord]
  refine ZMod.orderOf_dvd_card_sub_one ?_
  intro h0
  rw [h0, zero_pow hpos.ne'] at hpow
  exact zero_ne_one hpow

/-- A number that is not prime has a prime factor up to its root, which is too small. -/
theorem prime_of_certifies {n : ℕ} (qs : List ℕ) (hqs : ∀ q ∈ qs, q.Prime)
    (h : certifies n qs = true) : n.Prime := by
  obtain ⟨hn, -, hsq, -⟩ := of_decide_eq_true h
  by_contra hnp
  have hr : n.minFac.Prime := Nat.minFac_prime hn.ne'
  have hle : n.minFac ^ 2 ≤ n := Nat.minFac_sq_le_self (by omega) hnp
  have hdvd := prod_dvd_of_certifies hqs h hr (Nat.minFac_dvd n)
  have hlt : qs.prod < n.minFac := by
    have := Nat.le_of_dvd (Nat.sub_pos_of_lt hr.one_lt) hdvd
    have := hr.one_lt
    omega
  have hmul := Nat.mul_lt_mul'' hlt hlt
  rw [pow_two] at hle
  omega

theorem order_prime : order.Prime := by
  have h₁ : Nat.Prime 545358713 :=
    prime_of_certifies [28181] (by norm_num) (by decide +kernel)
  have h₂ : Nat.Prime 297159362677 :=
    prime_of_certifies [1627771] (by norm_num) (by decide +kernel)
  have h₃ : Nat.Prime 29047611873442575647497758179 :=
    prime_of_certifies [297159362677, 545358713] (by simp [h₁, h₂]) (by decide +kernel)
  have h₄ : Nat.Prime 341948486974166000522343609283189 :=
    prime_of_certifies [29047611873442575647497758179] (by simp [h₃]) (by decide +kernel)
  have h₅ : Nat.Prime 44706919 :=
    prime_of_certifies [9349] (by norm_num) (by decide +kernel)
  have h₆ : Nat.Prime 174723607534414371449 :=
    prime_of_certifies [44706919, 120233] (by norm_num [h₅]) (by decide +kernel)
  exact prime_of_certifies [341948486974166000522343609283189, 174723607534414371449]
    (by simp [h₄, h₆]) (by decide +kernel)

theorem prime_prime : prime.Prime := by
  have h₁ : Nat.Prime 107590001 :=
    prime_of_certifies [53, 29, 7] (by norm_num) (by decide +kernel)
  have h₂ : Nat.Prime 7240687 :=
    prime_of_certifies [1206781] (by norm_num) (by decide +kernel)
  have h₃ : Nat.Prime 255515944373312847190720520512484175977 :=
    prime_of_certifies [107590001, 7240687, 96557] (by norm_num [h₁, h₂])
      (by decide +kernel)
  have h₄ : Nat.Prime 205115282021455665897114700593932402728804164701536103180137503955397371 :=
    prime_of_certifies [255515944373312847190720520512484175977] (by simp [h₃])
      (by decide +kernel)
  exact prime_of_certifies
    [205115282021455665897114700593932402728804164701536103180137503955397371]
    (by simp [h₄]) (by decide +kernel)

end SealedMessage.Curve
