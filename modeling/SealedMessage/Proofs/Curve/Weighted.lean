import Mathlib
import SealedMessage.Proofs.Curve.Group

/-! Multiples of a point without inverses, so that one can be evaluated. The last denominator is a
multiple of all the earlier ones, so nothing is lost if it is not zero. -/

namespace SealedMessage.Curve

/-- The point whose coordinates are `x / z ^ 2` and `y / z ^ 3`. -/
structure Weighted where
  x : FieldElement
  y : FieldElement
  z : FieldElement

namespace Point

variable {x₁ y₁ x₂ y₂ : FieldElement}

/-- The tangent, where it is not vertical. -/
theorem add_self (hy : y₁ + y₁ ≠ 0) :
    affine x₁ y₁ + affine x₁ y₁ =
      let s := 3 * x₁ * x₁ / (y₁ + y₁)
      affine (s * s - x₁ - x₁) (s * (x₁ - (s * s - x₁ - x₁)) - y₁) := by
  have hne : ¬(x₁ = x₁ ∧ y₁ = -y₁) := fun h => hy (eq_neg_iff_add_eq_zero.1 h.2)
  change add _ _ = _
  unfold add slope
  dsimp only
  rw [if_neg hne, if_pos rfl, FieldElement.inverse_eq, ← div_eq_mul_inv]

/-- The line through two points, where it is not vertical. -/
theorem add_of_ne (hx : x₁ ≠ x₂) :
    affine x₁ y₁ + affine x₂ y₂ =
      let s := (y₁ - y₂) / (x₁ - x₂)
      affine (s * s - x₁ - x₂) (s * (x₁ - (s * s - x₁ - x₂)) - y₁) := by
  change add _ _ = _
  unfold add slope
  dsimp only
  rw [if_neg (fun h => hx h.1), if_neg hx, FieldElement.inverse_eq, ← div_eq_mul_inv]

end Point

namespace Weighted

def toPoint (t : Weighted) : Point := .affine (t.x / t.z ^ 2) (t.y / t.z ^ 3)

def double (t : Weighted) : Weighted :=
  let m := 3 * t.x * t.x
  let s := 4 * t.x * (t.y * t.y)
  let x := m * m - (s + s)
  ⟨x, m * (s - x) - 8 * (t.y * t.y) * (t.y * t.y), 2 * t.y * t.z⟩

/-- The sum with the point of coordinates `x` and `y`. -/
def addAffine (t : Weighted) (x y : FieldElement) : Weighted :=
  let h := x * (t.z * t.z) - t.x
  let r := y * (t.z * t.z * t.z) - t.y
  let v := t.x * (h * h)
  let x₃ := r * r - h * h * h - (v + v)
  ⟨x₃, r * (v - x₃) - t.y * (h * h * h), t.z * h⟩

theorem exists_coordinates {t : Weighted} (hz : t.z ≠ 0) :
    ∃ x y, t.x = x * t.z ^ 2 ∧ t.y = y * t.z ^ 3 ∧ t.toPoint = .affine x y :=
  ⟨t.x / t.z ^ 2, t.y / t.z ^ 3, by field_simp, by field_simp, rfl⟩

theorem toPoint_eq {t : Weighted} {x y : FieldElement} (hz : t.z ≠ 0) (hx : t.x = x * t.z ^ 2)
    (hy : t.y = y * t.z ^ 3) : t.toPoint = .affine x y := by
  rw [toPoint, hx, hy, mul_div_cancel_right₀ _ (pow_ne_zero 2 hz),
    mul_div_cancel_right₀ _ (pow_ne_zero 3 hz)]

theorem toPoint_double {t : Weighted} (h : t.double.z ≠ 0) :
    t.double.toPoint = t.toPoint + t.toPoint := by
  have hz : t.z ≠ 0 := right_ne_zero_of_mul h
  have hy : 2 * t.y ≠ 0 := left_ne_zero_of_mul h
  obtain ⟨x, y, hx', hy', hp⟩ := exists_coordinates hz
  have hyy : y + y ≠ 0 := by
    intro h0
    apply hy
    rw [hy', ← mul_assoc, two_mul, h0, zero_mul]
  have h2 : (2 : FieldElement) ≠ 0 := left_ne_zero_of_mul hy
  have hy0 : y ≠ 0 := by
    rintro rfl
    exact hyy (add_zero 0)
  rw [hp, Point.add_self hyy, ← two_mul]
  unfold toPoint double
  dsimp only
  rw [hx', hy']
  congr 1
  · field_simp
    ring
  · field_simp
    ring

theorem toPoint_addAffine {t : Weighted} {x y : FieldElement} (h : (t.addAffine x y).z ≠ 0) :
    (t.addAffine x y).toPoint = t.toPoint + .affine x y := by
  have hz : t.z ≠ 0 := left_ne_zero_of_mul h
  have hh : x * (t.z * t.z) - t.x ≠ 0 := right_ne_zero_of_mul h
  obtain ⟨x₁, y₁, hx', hy', hp⟩ := exists_coordinates hz
  have hfactor : x * (t.z * t.z) - x₁ * t.z ^ 2 = -(t.z ^ 2 * (x₁ - x)) := by ring
  have hne : x₁ - x ≠ 0 := by
    intro h0
    apply hh
    rw [hx', hfactor, h0, mul_zero, neg_zero]
  rw [hp, Point.add_of_ne (sub_ne_zero.1 hne)]
  unfold toPoint addAffine
  dsimp only
  rw [hx', hy', hfactor]
  congr 1
  · field_simp
    ring
  · field_simp
    ring

/-- A multiple that is not zero, by the digits of `k` below the first one. -/
def scale (x y : FieldElement) : ℕ → ℕ → Weighted
  | 0, _ => ⟨x, y, 1⟩
  | bits + 1, k =>
    if k < 2 then ⟨x, y, 1⟩
    else
      let d := (scale x y bits (k / 2)).double
      if k % 2 = 1 then d.addAffine x y else d

theorem toPoint_scale {P : curve.Point} {x y : FieldElement} (hP : Point.ofGroup P = .affine x y)
    {bits k : ℕ} (h₁ : 1 ≤ k) (h : k < 2 ^ bits) (hz : (scale x y bits k).z ≠ 0) :
    (scale x y bits k).toPoint = Point.ofGroup (k • P) := by
  induction bits generalizing k with
  | zero => omega
  | succ bits ih =>
    unfold scale at hz ⊢
    dsimp only at hz ⊢
    split_ifs at hz ⊢ with h2 ho
    · obtain rfl : k = 1 := by omega
      rw [one_nsmul, hP]
      simp [toPoint]
    · have hd := left_ne_zero_of_mul hz
      rw [toPoint_addAffine hz, toPoint_double hd,
        ih (by omega) (by omega) (right_ne_zero_of_mul hd), ← hP, ← Point.ofGroup_add,
        ← Point.ofGroup_add, ← add_nsmul, ← succ_nsmul]
      exact congrArg (fun k => Point.ofGroup (k • P)) (by omega)
    · rw [toPoint_double hz, ih (by omega) (by omega) (right_ne_zero_of_mul hz),
        ← Point.ofGroup_add, ← add_nsmul]
      exact congrArg (fun k => Point.ofGroup (k • P)) (by omega)

end Weighted

end SealedMessage.Curve
