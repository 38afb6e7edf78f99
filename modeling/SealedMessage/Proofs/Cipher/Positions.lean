import Mathlib
import SealedMessage.Proofs.Cipher.Keystream

/-! The keystream by position: its byte at a position is a byte of one block, however long the
keystream is taken. So a cut through a byte string is a cut through what the cipher makes of it, and
the keystream falls out of the difference of two strings that it was added to. -/

namespace SealedMessage

namespace Bytes

variable {a b : Bytes}

theorem getElem?_xor {i : ℕ} {x y : UInt8} (ha : a[i]? = some x) (hb : b[i]? = some y) :
    (xor a b)[i]? = some (x ^^^ y) :=
  List.getElem?_zipWith_eq_some.2 ⟨x, y, ha, hb, rfl⟩

theorem take_xor (a b : Bytes) (n : ℕ) : (xor a b).take n = xor (a.take n) (b.take n) :=
  List.take_zipWith

theorem getElem?_xor_eq_none {i : ℕ} (h : ¬ (i < a.length ∧ i < b.length)) :
    (xor a b)[i]? = none :=
  List.getElem?_eq_none (by rw [length_xor]; omega)

end Bytes

/-- A byte that two bytes were both added to leaves their difference as it is. -/
theorem xor_xor_xor_cancel (x y s : UInt8) : (x ^^^ s) ^^^ (y ^^^ s) = x ^^^ y := by
  rw [UInt8.xor_comm y s, UInt8.xor_assoc, ← UInt8.xor_assoc s s y, UInt8.xor_self, UInt8.zero_xor]

namespace ChaCha20

variable (key : ByteVec 32) (nonce : ByteVec 12)

/-- The byte of the keystream at position `i`, in the block whose number is `i / 64`. -/
def streamByte (i : ℕ) : UInt8 :=
  have hlt : i % 64 < (block key nonce (i / 64)).length := by rw [length_block]; omega
  (block key nonce (i / 64))[i % 64]

theorem getElem?_block (i : ℕ) :
    (block key nonce (i / 64))[i % 64]? = some (streamByte key nonce i) :=
  List.getElem?_eq_getElem _

theorem getElem?_flatMap_block {n i : ℕ} (h : i < 64 * n) :
    ((List.range n).flatMap (block key nonce))[i]? = some (streamByte key nonce i) := by
  induction n with
  | zero => omega
  | succ n ih =>
    have hlen := length_flatMap_block key nonce n
    rw [List.range_succ, List.flatMap_append, List.flatMap_singleton]
    by_cases hi : i < 64 * n
    · rw [List.getElem?_append_left (by omega), ih hi]
    · -- the position is in the last block
      have hdiv : i / 64 = n := by omega
      have hmod : i - 64 * n = i % 64 := by omega
      rw [List.getElem?_append_right (by omega), hlen, hmod, ← getElem?_block, hdiv]

/-- Nothing of a keystream depends on how long it is. -/
theorem keystream_eq_map (n : ℕ) :
    keystream key nonce n = (List.range n).map (streamByte key nonce) := by
  apply List.ext_getElem?
  intro i
  by_cases hi : i < n
  · rw [keystream, List.getElem?_take_of_lt hi, getElem?_flatMap_block key nonce (by omega),
      List.getElem?_map, List.getElem?_range hi, Option.map_some]
  · rw [List.getElem?_eq_none (by rw [length_keystream]; omega),
      List.getElem?_eq_none (by rw [List.length_map, List.length_range]; omega)]

theorem getElem?_keystream {n i : ℕ} (h : i < n) :
    (keystream key nonce n)[i]? = some (streamByte key nonce i) := by
  rw [keystream_eq_map, List.getElem?_map, List.getElem?_range h, Option.map_some]

theorem take_keystream (cut n : ℕ) :
    (keystream key nonce n).take cut = keystream key nonce (min cut n) := by
  rw [keystream_eq_map, keystream_eq_map, ← List.map_take, List.take_range]

theorem getElem?_xor_keystream {b : Bytes} {i : ℕ} (h : i < b.length) :
    (Bytes.xor b (keystream key nonce b.length))[i]? = some (b[i] ^^^ streamByte key nonce i) :=
  Bytes.getElem?_xor (List.getElem?_eq_getElem h) (getElem?_keystream key nonce h)

/-- The cut may be anywhere, inside a block or between two. -/
theorem take_xor_keystream (b : Bytes) (cut : ℕ) :
    (Bytes.xor b (keystream key nonce b.length)).take cut =
      Bytes.xor (b.take cut) (keystream key nonce (b.take cut).length) := by
  rw [Bytes.take_xor, take_keystream, List.length_take]

theorem xor_of_xor_keystream (b c : Bytes) :
    Bytes.xor (Bytes.xor b (keystream key nonce b.length))
      (Bytes.xor c (keystream key nonce c.length)) = Bytes.xor b c := by
  have hb := length_xor_keystream key nonce b
  have hc := length_xor_keystream key nonce c
  apply List.ext_getElem?
  intro i
  by_cases hi : i < b.length ∧ i < c.length
  · rw [Bytes.getElem?_xor (getElem?_xor_keystream key nonce hi.1)
        (getElem?_xor_keystream key nonce hi.2), xor_xor_xor_cancel,
      Bytes.getElem?_xor (List.getElem?_eq_getElem hi.1) (List.getElem?_eq_getElem hi.2)]
  · rw [Bytes.getElem?_xor_eq_none hi, Bytes.getElem?_xor_eq_none (by rwa [hb, hc])]

end ChaCha20

end SealedMessage
