import Mathlib
import SealedMessage.Curve.Point
import SealedMessage.Proofs.Curve.Residues

/-! An abscissa is lifted to the one point over it with an even ordinate. There is such a point
exactly where the side of the curve's equation without the ordinate is a square. -/

namespace SealedMessage.Curve

namespace FieldElement

variable {a x y z : FieldElement}

theorem isEven_iff : a.isEven = true ↔ a.val % 2 = 0 := beq_iff_eq

/-- The even one of an element and its opposite. -/
def evenOf (r : FieldElement) : FieldElement := if r.isEven then r else -r

theorem isEven_evenOf (r : FieldElement) : (evenOf r).isEven = true := by
  unfold evenOf
  split_ifs with h
  · exact h
  · have hr : r ≠ 0 := by
      rintro rfl
      exact h (by decide)
    rw [isEven_neg hr, Bool.eq_false_iff.2 h, Bool.not_false]

theorem evenOf_eq_or_eq_neg (r : FieldElement) : evenOf r = r ∨ evenOf r = -r := by
  unfold evenOf
  split_ifs
  · exact .inl rfl
  · exact .inr rfl

theorem evenOf_mul_self (r : FieldElement) : evenOf r * evenOf r = r * r := by
  rcases evenOf_eq_or_eq_neg r with h | h
  · rw [h]
  · rw [h, neg_mul_neg]

/-- No square has two roots of the same parity. -/
theorem eq_of_mul_self_eq (h : y * y = z * z) (heven : y.isEven = z.isEven) : y = z := by
  rcases mul_self_eq_mul_self_iff.1 h with hy | hy
  · exact hy
  · by_cases hz : z = 0
    · rw [hy, hz, neg_zero]
    · rw [hy, isEven_neg hz] at heven
      exact absurd heven (Bool.not_ne_self _)

theorem exists_sqrt?_iff : (∃ r, a.sqrt? = some r) ↔ IsSquare a := by
  constructor
  · rintro ⟨r, hr⟩
    exact ⟨r, (mul_self_of_sqrt? hr).symm⟩
  · rintro ⟨y, rfl⟩
    exact exists_sqrt?_mul_self y

/-- The equation of the curve, as a congruence of numbers. -/
theorem mul_self_eq_cubic_iff : y * y = cubic x ↔ y.val ^ 2 ≡ x.val ^ 3 + 7 [MOD prime] := by
  have hseven : (7 : FieldElement).residue = 7 := residue_ofNat 7
  rw [← residue_injective.eq_iff, ← ZMod.natCast_eq_natCast_iff, cubic, residue_add, hseven,
    residue_mul, residue_mul, residue_mul]
  push_cast
  rw [pow_two, pow_three']
  rfl

theorem isSquare_cubic_iff : IsSquare (cubic x) ↔ ∃ y : ℕ, y ^ 2 ≡ x.val ^ 3 + 7 [MOD prime] := by
  constructor
  · rintro ⟨y, hy⟩
    exact ⟨y.val, mul_self_eq_cubic_iff.1 hy.symm⟩
  · rintro ⟨y, hy⟩
    refine ⟨ofNat y, (mul_self_eq_cubic_iff.2 ?_).symm⟩
    exact ((Nat.mod_modEq y prime).pow 2).trans hy

end FieldElement

namespace Point

open FieldElement

variable {x : FieldElement} {p : Point}

theorem lift?_eq_some_iff :
    lift? x = some p ↔ ∃ y, p = affine x y ∧ y.isEven = true ∧ y * y = cubic x := by
  constructor
  · intro h
    unfold lift? at h
    split at h
    · rename_i r hr
      obtain rfl := Option.some.inj h
      exact ⟨evenOf r, rfl, isEven_evenOf r, (evenOf_mul_self r).trans (mul_self_of_sqrt? hr)⟩
    · cases h
  · rintro ⟨y, rfl, heven, hy⟩
    obtain ⟨r, hr⟩ := exists_sqrt?_iff.2 ⟨y, hy.symm⟩
    have hroot : evenOf r = y := by
      apply eq_of_mul_self_eq
      · rw [evenOf_mul_self, mul_self_of_sqrt? hr, hy]
      · rw [isEven_evenOf, heven]
    rw [lift?, hr, ← hroot]
    rfl

theorem exists_lift?_iff : (∃ p, lift? x = some p) ↔ IsSquare (cubic x) := by
  constructor
  · rintro ⟨p, hp⟩
    obtain ⟨y, -, -, hy⟩ := lift?_eq_some_iff.1 hp
    exact ⟨y, hy.symm⟩
  · rintro ⟨y, hy⟩
    have heven := (evenOf_mul_self y).trans hy.symm
    exact ⟨_, lift?_eq_some_iff.2 ⟨evenOf y, rfl, isEven_evenOf y, heven⟩⟩

end Point

end SealedMessage.Curve
