import Mathlib
import SealedMessage.Proofs.Curve.Primality

/-! The residues below the prime form a field, with the operations of the program, and its square
roots are the square roots of that field. -/

namespace SealedMessage.Curve

namespace FieldElement

instance : Fact prime.Prime := ⟨prime_prime⟩

def residue (a : FieldElement) : ZMod prime := a.val

theorem residue_injective : Function.Injective residue := by
  intro a b h
  apply ext
  have hmod := (ZMod.natCast_eq_natCast_iff _ _ _).1 h
  rwa [Nat.ModEq, Nat.mod_eq_of_lt a.lt, Nat.mod_eq_of_lt b.lt] at hmod

@[simp] theorem residue_ofNat (n : ℕ) : (ofNat n).residue = n := ZMod.natCast_mod n prime

instance : Zero FieldElement := ⟨0⟩

instance : One FieldElement := ⟨1⟩

@[simp] theorem residue_zero : residue 0 = 0 := (residue_ofNat 0).trans Nat.cast_zero

@[simp] theorem residue_one : residue 1 = 1 := (residue_ofNat 1).trans Nat.cast_one

@[simp] theorem residue_add (a b : FieldElement) : (a + b).residue = a.residue + b.residue := by
  rw [show a + b = ofNat (a.val + b.val) from rfl, residue_ofNat, Nat.cast_add]
  rfl

@[simp] theorem residue_mul (a b : FieldElement) : (a * b).residue = a.residue * b.residue := by
  rw [show a * b = ofNat (a.val * b.val) from rfl, residue_ofNat, Nat.cast_mul]
  rfl

@[simp] theorem residue_neg (a : FieldElement) : (-a).residue = -a.residue := by
  rw [show -a = ofNat (prime - a.val) from rfl, residue_ofNat, Nat.cast_sub a.lt.le,
    ZMod.natCast_self, zero_sub]
  rfl

@[simp] theorem residue_sub (a b : FieldElement) : (a - b).residue = a.residue - b.residue := by
  rw [show a - b = ofNat (a.val + (prime - b.val)) from rfl, residue_ofNat, Nat.cast_add,
    Nat.cast_sub b.lt.le, ZMod.natCast_self, zero_sub, ← sub_eq_add_neg]
  rfl

instance : CommRing FieldElement where
  natCast := ofNat
  nsmul := nsmulRec
  zsmul := zsmulRec
  add_assoc a b c := residue_injective (by simp [add_assoc])
  zero_add a := residue_injective (by simp)
  add_zero a := residue_injective (by simp)
  add_comm a b := residue_injective (by simp [add_comm])
  left_distrib a b c := residue_injective (by simp [mul_add])
  right_distrib a b c := residue_injective (by simp [add_mul])
  zero_mul a := residue_injective (by simp)
  mul_zero a := residue_injective (by simp)
  mul_assoc a b c := residue_injective (by simp [mul_assoc])
  one_mul a := residue_injective (by simp)
  mul_one a := residue_injective (by simp)
  mul_comm a b := residue_injective (by simp [mul_comm])
  neg_add_cancel a := residue_injective (by simp)
  sub_eq_add_neg a b := residue_injective (by simp [sub_eq_add_neg])
  natCast_zero := rfl
  natCast_succ n := residue_injective (by simp)

theorem pow_eq (a : FieldElement) {bits e : ℕ} (h : e < 2 ^ bits) : a.pow bits e = a ^ e := by
  induction bits generalizing e with
  | zero =>
    obtain rfl : e = 0 := by simpa using h
    exact (pow_zero a).symm
  | succ bits ih =>
    have hhalf := ih (e := e / 2) (by omega)
    unfold pow
    rw [hhalf]
    dsimp only
    split_ifs with ho
    · rw [← pow_add, ← pow_succ]
      exact congrArg (a ^ ·) (by omega)
    · rw [← pow_add]
      exact congrArg (a ^ ·) (by omega)

theorem residue_pow (a : FieldElement) (e : ℕ) : (a ^ e).residue = a.residue ^ e := by
  induction e with
  | zero => rw [pow_zero, pow_zero, residue_one]
  | succ e ih => rw [pow_succ, pow_succ, residue_mul, ih]

theorem pow_prime (a : FieldElement) : a ^ prime = a := by
  apply residue_injective
  rw [residue_pow, ZMod.pow_card]

theorem pow_pred_prime {a : FieldElement} (h : a ≠ 0) : a ^ (prime - 1) = 1 := by
  have hne : a.residue ≠ 0 := by
    intro h0
    exact h (residue_injective (h0.trans residue_zero.symm))
  apply residue_injective
  rw [residue_pow, residue_one, ZMod.pow_card_sub_one_eq_one hne]

theorem mul_inverse {a : FieldElement} (h : a ≠ 0) : a * a.inverse = 1 := by
  rw [inverse, pow_eq a (by decide), ← pow_succ']
  exact pow_pred_prime h

theorem inverse_zero : inverse 0 = 0 := by
  rw [inverse, pow_eq 0 (by decide), zero_pow (by decide)]

instance : Field FieldElement where
  inv := inverse
  exists_pair_ne := ⟨0, 1, by decide⟩
  mul_inv_cancel _ h := mul_inverse h
  inv_zero := inverse_zero
  nnqsmul := _
  qsmul := _

theorem inverse_eq (a : FieldElement) : a.inverse = a⁻¹ := rfl

theorem mul_self_of_sqrt? {a r : FieldElement} (h : a.sqrt? = some r) : r * r = a := by
  unfold sqrt? at h
  dsimp only at h
  split_ifs at h with hr
  obtain rfl := Option.some.inj h
  exact hr

/-- Every square has a root found. -/
theorem exists_sqrt?_mul_self (y : FieldElement) : ∃ r, (y * y).sqrt? = some r := by
  have hr : (y * y) ^ ((prime + 1) / 4) * (y * y) ^ ((prime + 1) / 4) = y * y := by
    rw [← pow_add, ← pow_two, ← pow_mul,
      show 2 * ((prime + 1) / 4 + (prime + 1) / 4) = prime + 1 by decide, pow_succ, pow_prime,
      pow_two]
  refine ⟨(y * y) ^ ((prime + 1) / 4), ?_⟩
  unfold sqrt?
  rw [pow_eq (y * y) (by decide)]
  exact if_pos hr

/-- The prime is odd, so that the two roots of a square are told apart by their parity. -/
theorem isEven_neg {y : FieldElement} (h : y ≠ 0) : (-y).isEven = !y.isEven := by
  have hpos : 0 < y.val := Nat.pos_of_ne_zero fun h0 => h (ext h0)
  have hlt := y.lt
  have hodd : prime % 2 = 1 := by decide
  have hval : (-y).val = prime - y.val := Nat.mod_eq_of_lt (by omega)
  rw [isEven, isEven, hval, Bool.eq_iff_iff, Bool.not_eq_true', beq_iff_eq, beq_eq_false_iff_ne]
  omega

end FieldElement

end SealedMessage.Curve
