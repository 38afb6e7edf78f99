import Mathlib
import SealedMessage.Cipher.ChaCha20

/-! The keystream has the length that is asked for, so that the cipher keeps lengths and undoes
itself. Its only fault is a string of too many blocks. -/

namespace SealedMessage

theorem Bytes.xor_xor_cancel {b s : Bytes} (h : b.length ≤ s.length) : xor (xor b s) s = b := by
  induction b generalizing s with
  | nil => rfl
  | cons x b ih =>
    cases s with
    | nil => exact absurd h (by simp)
    | cons y s =>
      have hx : x ^^^ y ^^^ y = x := by rw [UInt8.xor_assoc, UInt8.xor_self, UInt8.xor_zero]
      exact congrArg₂ List.cons hx (ih (Nat.le_of_succ_le_succ h))

namespace ChaCha20

variable (key : ByteVec 32) (nonce : ByteVec 12)

theorem length_flatMap_block (n : ℕ) :
    ((List.range n).flatMap (block key nonce)).length = 64 * n := by
  simp only [List.length_flatMap, length_block, List.map_const', List.sum_replicate,
    List.length_range, smul_eq_mul]
  omega

@[simp] theorem length_keystream (n : ℕ) : (keystream key nonce n).length = n := by
  rw [keystream, List.length_take, length_flatMap_block]
  omega

theorem apply_of_le {b : Bytes} (h : (b.length + 63) / 64 ≤ maxBlocks) :
    apply key nonce b = .ok (Bytes.xor b (keystream key nonce b.length)) := by
  rw [apply, if_pos h]

theorem length_xor_keystream (b : Bytes) :
    (Bytes.xor b (keystream key nonce b.length)).length = b.length := by
  rw [Bytes.length_xor, length_keystream, min_self]

theorem xor_keystream_xor_keystream (b : Bytes) :
    Bytes.xor (Bytes.xor b (keystream key nonce b.length))
      (keystream key nonce (Bytes.xor b (keystream key nonce b.length)).length) = b := by
  rw [length_xor_keystream]
  exact Bytes.xor_xor_cancel (length_keystream key nonce b.length).ge

end ChaCha20

end SealedMessage
