import Mathlib
import SealedMessage.Key.Message

/-! Comparison in constant time is equality, of byte strings of any lengths, of a tag with whatever
is given as one, and of conversation keys. No difference cancels another, since each bit of the byte
that gathers them stays set once it is. -/

namespace SealedMessage

/-- Gathering bytes keeps every bit of each of them. -/
theorem testBit_foldl_or (b : Bytes) (acc : UInt8) (j : ℕ) :
    (b.foldl (· ||| ·) acc).toNat.testBit j = true ↔
      acc.toNat.testBit j = true ∨ ∃ x ∈ b, x.toNat.testBit j = true := by
  induction b generalizing acc with
  | nil => simp
  | cons x b ih =>
    rw [List.foldl_cons, ih, UInt8.toNat_or, Nat.testBit_or, Bool.or_eq_true, or_assoc,
      List.exists_mem_cons_iff]

theorem Bytes.mem_xor_iff {a b : Bytes} {z : UInt8} :
    z ∈ xor a b ↔ ∃ (i : ℕ) (x y : UInt8), a[i]? = some x ∧ b[i]? = some y ∧ x ^^^ y = z := by
  rw [List.mem_iff_getElem?]
  exact exists_congr fun i => List.getElem?_zipWith_eq_some

theorem testBit_xor_iff (x y : UInt8) (j : ℕ) :
    (x ^^^ y).toNat.testBit j = true ↔ x.toNat.testBit j ≠ y.toNat.testBit j := by
  rw [UInt8.toNat_xor, Nat.testBit_xor, Bool.xor_iff_ne]

theorem not_testBit_zero (j : ℕ) : ¬ (0 : UInt8).toNat.testBit j = true := by simp

/-- A bit is gathered exactly if the strings differ in it somewhere, however often they do. -/
theorem testBit_differences (a b : Bytes) (j : ℕ) :
    (differences a b).toNat.testBit j = true ↔
      ∃ (i : ℕ) (x y : UInt8), a[i]? = some x ∧ b[i]? = some y ∧
        x.toNat.testBit j ≠ y.toNat.testBit j := by
  rw [differences, testBit_foldl_or, or_iff_right (not_testBit_zero j)]
  constructor
  · rintro ⟨z, hz, hj⟩
    obtain ⟨i, x, y, hx, hy, rfl⟩ := Bytes.mem_xor_iff.1 hz
    exact ⟨i, x, y, hx, hy, (testBit_xor_iff x y j).1 hj⟩
  · rintro ⟨i, x, y, hx, hy, hj⟩
    exact ⟨x ^^^ y, Bytes.mem_xor_iff.2 ⟨i, x, y, hx, hy, rfl⟩, (testBit_xor_iff x y j).2 hj⟩

theorem eq_of_testBit {x y : UInt8}
    (h : ∀ j, x.toNat.testBit j = true ↔ y.toNat.testBit j = true) : x = y :=
  UInt8.toNat_inj.1 (Nat.eq_of_testBit_eq fun j => Bool.eq_iff_iff.2 (h j))

/-- Nothing is gathered exactly if nothing differs. -/
theorem differences_eq_zero_iff {a b : Bytes} (hl : a.length = b.length) :
    differences a b = 0 ↔ a = b := by
  constructor
  · intro h
    apply List.ext_getElem hl
    intro i ha hb
    by_contra hne
    -- two bytes that are not equal differ in a bit, and that bit was gathered
    obtain ⟨j, hj⟩ : ∃ j, a[i].toNat.testBit j ≠ b[i].toNat.testBit j := by
      by_contra hno
      exact hne (eq_of_testBit fun j => by rw [not_not.1 (not_exists.1 hno j)])
    apply not_testBit_zero j
    rw [← h]
    exact (testBit_differences a b j).2
      ⟨i, _, _, List.getElem?_eq_getElem ha, List.getElem?_eq_getElem hb, hj⟩
  · rintro rfl
    apply eq_of_testBit
    intro j
    rw [iff_false_right (not_testBit_zero j), testBit_differences]
    rintro ⟨i, x, y, hx, hy, hj⟩
    obtain rfl := Option.some.inj (hx.symm.trans hy)
    exact hj rfl

theorem constantTimeEq_eq_true_iff {a b : Bytes} : constantTimeEq a b = true ↔ a = b := by
  unfold constantTimeEq
  split
  · rename_i hl
    exact iff_of_false Bool.false_ne_true fun he => hl (congrArg List.length he)
  · rename_i hl
    rw [beq_iff_eq, differences_eq_zero_iff (not_not.1 hl)]

/-- Neither a part of the tag nor anything longer passes for it. -/
theorem MessageKeys.verifyTag_eq (keys : MessageKeys) (nonce : Nonce) (ciphertext given : Bytes) :
    keys.verifyTag nonce ciphertext given =
      .ok (decide (given = (keys.tag nonce ciphertext).toList)) := by
  have hanswer : constantTimeEq (keys.tag nonce ciphertext).toList given =
      decide (given = (keys.tag nonce ciphertext).toList) := by
    rw [Bool.eq_iff_iff, constantTimeEq_eq_true_iff, decide_eq_true_iff, eq_comm]
  rw [verifyTag, computeTag_eq, ok_bind, hanswer]
  rfl

namespace ConversationKey

theorem beq_iff_bytes_eq {a b : ConversationKey} : (a == b) = true ↔ a.bytes = b.bytes :=
  constantTimeEq_eq_true_iff.trans ⟨ByteVec.ext, congrArg ByteVec.toList⟩

instance : LawfulBEq ConversationKey where
  eq_of_beq h := congrArg ConversationKey.mk (beq_iff_bytes_eq.1 h)
  rfl := beq_iff_bytes_eq.2 rfl

theorem equivalence_beq : Equivalence fun a b : ConversationKey => (a == b) = true := by
  simp only [beq_iff_eq]
  exact eq_equivalence

end ConversationKey

/-- Every comparison of secrets is exact: of byte strings; of the tag, which is always computed,
with a string of any length; and of conversation keys. -/
theorem comparison_is_equality :
    (∀ a b : Bytes, constantTimeEq a b = true ↔ a = b) ∧
    (∀ (keys : MessageKeys) (nonce : Nonce) (ciphertext given : Bytes),
      keys.computeTag nonce ciphertext = .ok (keys.tag nonce ciphertext) ∧
      ∃ answer, keys.verifyTag nonce ciphertext given = .ok answer ∧
        (answer = true ↔ given = (keys.tag nonce ciphertext).toList)) ∧
    (∀ a b : ConversationKey, (a == b) = true ↔ a.bytes = b.bytes) ∧
    Equivalence fun a b : ConversationKey => (a == b) = true := by
  refine ⟨fun a b => constantTimeEq_eq_true_iff, ?_, ?_, ConversationKey.equivalence_beq⟩
  · intro keys nonce ciphertext given
    exact ⟨keys.computeTag_eq nonce ciphertext, _, keys.verifyTag_eq nonce ciphertext given,
      decide_eq_true_iff⟩
  · intro a b
    exact ConversationKey.beq_iff_bytes_eq

end SealedMessage
