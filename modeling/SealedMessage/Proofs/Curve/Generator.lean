import Mathlib
import SealedMessage.Proofs.Curve.Weighted

/-! The order of the generator is the order of the curve, so that no scalar below it leads to the
point at infinity. -/

namespace SealedMessage.Curve

open WeierstrassCurve

theorem order_lt_two_pow : order < 2 ^ 256 := by decide

namespace Point

theorem onCurve_generator : generator.OnCurve := by
  unfold generator OnCurve
  decide +kernel

/-- The generator, as a member of the group. -/
def base : curve.Point := generator.toGroup onCurve_generator

theorem scale_generator {k : ℕ} (h : k < 2 ^ 256) :
    generator.scale 256 k = ofGroup (k • base) := by
  rw [← scale_ofGroup base h, base, ofGroup_toGroup]

/-- The last multiple before the order, evaluated. -/
theorem scale_pred_order :
    ∃ x y, generator = affine x y ∧
      let t := Weighted.scale x y 256 (order - 1)
      t.z ≠ 0 ∧ t.x = x * t.z ^ 2 ∧ t.y = -y * t.z ^ 3 :=
  ⟨_, _, rfl, by decide +kernel⟩

theorem order_nsmul_base : order • base = 0 := by
  obtain ⟨x, y, hg, hz, hx, hy⟩ := scale_pred_order
  have hb : ofGroup base = affine x y := (ofGroup_toGroup _ _).trans hg
  have hpred : (order - 1) • base = -base := by
    apply ofGroup_injective
    rw [ofGroup_neg hb, ← Weighted.toPoint_eq hz hx hy]
    exact (Weighted.toPoint_scale hb (by decide) (by decide) hz).symm
  rw [show order = order - 1 + 1 by decide, succ_nsmul, hpred, neg_add_cancel]

theorem base_ne_zero : base ≠ 0 := Affine.Point.some_ne_zero _

/-- The order of the curve is prime, so it is the order of every point that it takes to infinity. -/
theorem addOrderOf_eq_order {P : curve.Point} (hP : P ≠ 0) (h : order • P = 0) :
    addOrderOf P = order := by
  have : Fact order.Prime := ⟨order_prime⟩
  exact addOrderOf_eq_prime h hP

theorem nsmul_ne_zero_of_order {P : curve.Point} (hP : P ≠ 0) (h : order • P = 0) {k : ℕ}
    (h₀ : 0 < k) (hk : k < order) : k • P ≠ 0 := by
  intro hzero
  have hdvd := addOrderOf_dvd_of_nsmul_eq_zero hzero
  rw [addOrderOf_eq_order hP h] at hdvd
  exact absurd (Nat.le_of_dvd h₀ hdvd) (not_le.2 hk)

theorem nsmul_base_ne_zero {k : ℕ} (h₀ : 0 < k) (h : k < order) : k • base ≠ 0 :=
  nsmul_ne_zero_of_order base_ne_zero order_nsmul_base h₀ h

end Point

end SealedMessage.Curve
