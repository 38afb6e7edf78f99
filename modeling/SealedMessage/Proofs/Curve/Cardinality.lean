import Mathlib
import SealedMessage.Proofs.Curve.Generator

/-! The curve has as many points as its order says, so that no scalar below the order takes any
point but infinity to infinity. At most two points lie over an abscissa, too few for three times the
order. Twice the order would need a point of order two, and so a cube root of -7. -/

namespace SealedMessage.Curve

open WeierstrassCurve

namespace FieldElement

instance : Finite FieldElement := Finite.of_injective residue residue_injective

theorem card_le : Nat.card FieldElement ≤ prime :=
  (Nat.card_le_card_of_injective residue residue_injective).trans (Nat.card_zmod prime).le

/-- The power that is one for every cube is another number for -7. -/
theorem cubic_ne_zero (x : FieldElement) : cubic x ≠ 0 := by
  intro h
  have hcube : x ^ 3 = -7 := by
    rw [pow_three']
    exact eq_neg_of_add_eq_zero_left h
  have hne : x ≠ 0 := by
    rintro rfl
    exact absurd hcube (by decide)
  have hpow : (-7 : FieldElement) ^ ((prime - 1) / 3) ≠ 1 := by
    rw [← pow_eq _ (by decide : (prime - 1) / 3 < 2 ^ 256)]
    decide +kernel
  apply hpow
  rw [← hcube, ← pow_mul, show 3 * ((prime - 1) / 3) = prime - 1 by decide, pow_pred_prime hne]

end FieldElement

namespace Point

variable {x y : FieldElement} {P : curve.Point}

/-- An ordinate of zero would stand over a cube root of -7. -/
theorem ordinate_ne_zero (h : curve.Nonsingular x y) : y ≠ 0 := by
  rintro rfl
  exact FieldElement.cubic_ne_zero x ((nonsingular_iff.1 h).symm.trans (mul_zero 0))

/-- The abscissa and the parity of the ordinate, which give a point. -/
def compressed : curve.Point → Option (FieldElement × Bool)
  | .zero => none
  | .some x y _ => some (x, y.isEven)

theorem compressed_injective : Function.Injective compressed := by
  rintro (_ | ⟨x₁, y₁, h₁⟩) (_ | ⟨x₂, y₂, h₂⟩) h
  · rfl
  · cases h
  · cases h
  · simp only [compressed, Option.some.injEq, Prod.mk.injEq] at h
    obtain ⟨rfl, heven⟩ := h
    have hsq : y₁ * y₁ = y₂ * y₂ :=
      (nonsingular_iff.1 h₁).trans (nonsingular_iff.1 h₂).symm
    obtain rfl := FieldElement.eq_of_mul_self_eq hsq heven
    rfl

instance : Finite curve.Point := Finite.of_injective compressed compressed_injective

theorem card_point_le : Nat.card curve.Point ≤ 2 * prime + 1 := by
  have h := Nat.card_le_card_of_injective compressed compressed_injective
  rw [Finite.card_option, Nat.card_prod, Nat.card_eq_fintype_card (α := Bool),
    Fintype.card_bool] at h
  have hf := FieldElement.card_le
  omega

theorem neg_ne_self (h : P ≠ 0) : -P ≠ P := by
  intro hneg
  rcases P with _ | ⟨x, y, hxy⟩
  · exact h rfl
  · rw [Affine.Point.neg_some, Affine.Point.some.injEq, negY_eq] at hneg
    have heven := FieldElement.isEven_neg (ordinate_ne_zero hxy)
    rw [hneg.2] at heven
    exact absurd heven (by simp)

theorem not_two_dvd_card : ¬2 ∣ Nat.card curve.Point := by
  intro hdvd
  obtain ⟨P, hP⟩ := exists_prime_addOrderOf_dvd_card' 2 hdvd
  have hne : P ≠ 0 := by
    rintro rfl
    rw [addOrderOf_zero] at hP
    exact absurd hP (by decide)
  have htwo : P + P = 0 := by
    rw [← two_nsmul, ← hP, addOrderOf_nsmul_eq_zero]
  exact neg_ne_self hne (neg_eq_of_add_eq_zero_left htwo)

theorem card_point : Nat.card curve.Point = order := by
  obtain ⟨c, hc⟩ := addOrderOf_dvd_natCard base
  rw [addOrderOf_eq_order base_ne_zero order_nsmul_base] at hc
  have hle := card_point_le
  have hodd := not_two_dvd_card
  have hpos : 0 < Nat.card curve.Point := Nat.card_pos
  have hbound : 2 * prime + 1 < order * 3 := by decide
  rw [hc] at hle hodd hpos
  have hc3 : c < 3 := Nat.lt_of_mul_lt_mul_left (hle.trans_lt hbound)
  interval_cases c
  · exact absurd hpos (by simp)
  · rw [hc, mul_one]
  · exact absurd (dvd_mul_left 2 order) hodd

theorem order_nsmul (P : curve.Point) : order • P = 0 := by
  rw [← card_point, card_nsmul_eq_zero']

theorem nsmul_ne_zero (hP : P ≠ 0) {k : ℕ} (h₀ : 0 < k) (h : k < order) : k • P ≠ 0 :=
  nsmul_ne_zero_of_order hP (order_nsmul P) h₀ h

theorem order_sub_nsmul (P : curve.Point) {k : ℕ} (h : k ≤ order) :
    (order - k) • P = -(k • P) := by
  rw [sub_nsmul P h, order_nsmul, zero_add]

theorem nsmul_eq_nsmul_iff (hP : P ≠ 0) {j k : ℕ} (hj : j < order) (hk : k < order) :
    j • P = k • P ↔ j = k := by
  rw [← addOrderOf_eq_order hP (order_nsmul P)] at hj hk
  exact nsmul_injOn_Iio_addOrderOf.eq_iff hj hk

/-- Opposite multiples are those by scalars that add up to the order. -/
theorem nsmul_eq_neg_nsmul_iff (hP : P ≠ 0) {j k : ℕ} (hj : j < order) (h₀ : 0 < k)
    (hk : k < order) : j • P = -(k • P) ↔ j + k = order := by
  rw [← order_sub_nsmul P hk.le, nsmul_eq_nsmul_iff hP hj (Nat.sub_lt (h₀.trans hk) h₀)]
  omega

end Point

end SealedMessage.Curve
