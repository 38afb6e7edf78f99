import Mathlib
import SealedMessage.Bytes

/-! Big-endian digits and values undo each other: a byte string is the digits of its value, and its
value is below the power of 256 that its length gives. -/

namespace SealedMessage.Bytes

theorem toNat_concat (b : Bytes) (x : UInt8) : toNat (b ++ [x]) = toNat b * 256 + x.toNat := by
  rw [toNat, List.foldl_append]
  rfl

theorem toNat_bigEndian (width n : ℕ) : toNat (bigEndian width n) = n % 256 ^ width := by
  induction width generalizing n with
  | zero => rw [pow_zero, Nat.mod_one]; rfl
  | succ w ih =>
    rw [bigEndian, toNat_concat, ih, UInt8.toNat_ofNat', pow_succ' 256 w, Nat.mod_mul]
    omega

theorem bigEndian_toNat (b : Bytes) : bigEndian b.length (toNat b) = b := by
  induction b using List.reverseRecOn with
  | nil => rfl
  | append_singleton b x ih =>
    have hx := x.toNat_lt
    rw [List.length_append, List.length_singleton, bigEndian, toNat_concat,
      show (toNat b * 256 + x.toNat) / 256 = toNat b by omega, ih]
    congr 2
    apply UInt8.toNat_inj.1
    rw [UInt8.toNat_ofNat']
    omega

theorem toNat_lt (b : Bytes) : toNat b < 256 ^ b.length := by
  rw [← bigEndian_toNat b, toNat_bigEndian, length_bigEndian]
  exact Nat.mod_lt _ (by positivity)

end SealedMessage.Bytes

namespace SealedMessage.ByteVec

theorem bigEndian_toNat {n : ℕ} (v : ByteVec n) : bigEndian n v.toNat = v := by
  apply ext
  have h := Bytes.bigEndian_toNat v.toList
  rwa [v.length_eq] at h

theorem toNat_bigEndian {n value : ℕ} (h : value < 256 ^ n) :
    (bigEndian n value).toNat = value := by
  rw [toNat, bigEndian, Bytes.toNat_bigEndian, Nat.mod_eq_of_lt h]

end SealedMessage.ByteVec
