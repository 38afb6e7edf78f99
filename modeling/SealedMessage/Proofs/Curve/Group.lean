import Mathlib
import SealedMessage.Proofs.Curve.Lifting

/-! The points of the curve form a group under the addition of points, and the multiples of a point
are its multiples in that group. -/

namespace SealedMessage.Curve

open WeierstrassCurve

def curve : Affine FieldElement := ⟨0, 0, 0, 0, 7⟩

instance : curve.IsElliptic := ⟨isUnit_iff_ne_zero.2 (by decide)⟩

theorem nonsingular_iff {x y : FieldElement} : curve.Nonsingular x y ↔ y * y = cubic x := by
  rw [← Affine.equation_iff_nonsingular, Affine.equation_iff]
  unfold curve cubic
  ring_nf

namespace Point

def ofGroup : curve.Point → Point
  | .zero => infinity
  | .some x y _ => affine x y

def toGroup : (p : Point) → p.OnCurve → curve.Point
  | infinity, _ => .zero
  | affine x y, h => .some x y (nonsingular_iff.2 h)

theorem ofGroup_toGroup : (p : Point) → (h : p.OnCurve) → ofGroup (p.toGroup h) = p
  | infinity, _ => rfl
  | affine _ _, _ => rfl

theorem ofGroup_injective : Function.Injective ofGroup := by
  rintro (_ | ⟨x₁, y₁, h₁⟩) (_ | ⟨x₂, y₂, h₂⟩) h
  · rfl
  · cases h
  · cases h
  · cases h
    rfl

theorem negY_eq (x y : FieldElement) : curve.negY x y = -y := by
  simp [Affine.negY, curve]

theorem ofGroup_neg {P : curve.Point} {x y : FieldElement} (h : ofGroup P = affine x y) :
    ofGroup (-P) = affine x (-y) := by
  rcases P with _ | ⟨x', y', h'⟩
  · cases h
  · cases h
    rw [Affine.Point.neg_some]
    simp only [ofGroup, negY_eq]

theorem slope_eq {x₁ y₁ x₂ y₂ : FieldElement} (h : ¬(x₁ = x₂ ∧ y₁ = -y₂)) :
    slope x₁ y₁ x₂ y₂ = curve.slope x₁ x₂ y₁ y₂ := by
  unfold slope
  by_cases hx : x₁ = x₂
  · have hy : y₁ ≠ curve.negY x₂ y₂ := by
      intro hy
      exact h ⟨hx, hy.trans (negY_eq x₂ y₂)⟩
    rw [if_pos hx, Affine.slope_of_Y_ne hx hy, negY_eq, FieldElement.inverse_eq]
    simp only [curve]
    ring
  · rw [if_neg hx, Affine.slope_of_X_ne hx, FieldElement.inverse_eq]
    rfl

theorem ofGroup_add (P Q : curve.Point) : ofGroup (P + Q) = ofGroup P + ofGroup Q := by
  rcases P with _ | ⟨x₁, y₁, h₁⟩
  · exact congrArg ofGroup (zero_add Q)
  rcases Q with _ | ⟨x₂, y₂, h₂⟩
  · exact congrArg ofGroup (add_zero _)
  change _ = add (affine x₁ y₁) (affine x₂ y₂)
  unfold add
  by_cases h : x₁ = x₂ ∧ y₁ = -y₂
  · rw [Affine.Point.add_of_Y_eq h.1 (h.2.trans (negY_eq x₂ y₂).symm)]
    exact (if_pos h).symm
  · rw [Affine.Point.add_some (by rwa [negY_eq])]
    dsimp only
    rw [if_neg h, slope_eq h]
    simp only [ofGroup, Affine.addY, Affine.negAddY, Affine.addX, negY_eq]
    simp only [curve]
    ring_nf

theorem scale_ofGroup (P : curve.Point) {bits k : ℕ} (h : k < 2 ^ bits) :
    (ofGroup P).scale bits k = ofGroup (k • P) := by
  induction bits generalizing k with
  | zero =>
    obtain rfl : k = 0 := by simpa using h
    rw [zero_nsmul]
    rfl
  | succ bits ih =>
    have hhalf := ih (k := k / 2) (by omega)
    unfold scale
    rw [hhalf]
    dsimp only
    split_ifs with ho
    · rw [← ofGroup_add, ← ofGroup_add, ← add_nsmul, ← succ_nsmul]
      exact congrArg (fun k => ofGroup (k • P)) (by omega)
    · rw [← ofGroup_add, ← add_nsmul]
      exact congrArg (fun k => ofGroup (k • P)) (by omega)

/-- Lifting an abscissa keeps the point up to its sign. -/
theorem exists_lift? {x y : FieldElement} (h : curve.Nonsingular x y) :
    ∃ P, lift? x = some (ofGroup P) ∧ (P = .some x y h ∨ P = -.some x y h) := by
  have hroot := (y.evenOf_mul_self).trans (nonsingular_iff.1 h)
  have hlift := lift?_eq_some_iff.2 ⟨_, rfl, y.isEven_evenOf, hroot⟩
  rcases y.evenOf_eq_or_eq_neg with hy | hy
  · exact ⟨.some x y h, by rw [hlift, hy, ofGroup], .inl rfl⟩
  · exact ⟨-.some x y h, by rw [hlift, hy, ofGroup_neg (by rw [ofGroup])], .inr rfl⟩

/-- What is lifted lies on the curve. -/
theorem exists_some_of_lift? {x : FieldElement} {p : Point} (h : lift? x = some p) :
    ∃ y, ∃ hxy : curve.Nonsingular x y, p = ofGroup (.some x y hxy) := by
  obtain ⟨y, rfl, -, hy⟩ := lift?_eq_some_iff.1 h
  exact ⟨y, nonsingular_iff.2 hy, rfl⟩

end Point

end SealedMessage.Curve
