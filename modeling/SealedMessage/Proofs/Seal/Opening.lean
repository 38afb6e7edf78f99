import Mathlib
import SealedMessage.Proofs.Cipher.Keystream
import SealedMessage.Proofs.Key.Comparison
import SealedMessage.Proofs.Key.Derivation
import SealedMessage.Proofs.Padding.Frame
import SealedMessage.Seal

/-! A payload opens to a message exactly if its tag is right and its ciphertext is a frame of the
message under the keystream. Everything else is one refusal. -/

namespace SealedMessage

namespace MessageKeys

/-- What the cipher's key and nonce make of a byte string, the keystream taken as long as needed. -/
def keystreamXor (keys : MessageKeys) (b : Bytes) : Bytes :=
  Bytes.xor b (ChaCha20.keystream keys.cipherKey keys.cipherNonce b.length)

theorem applyKeystream_of_le (keys : MessageKeys) {b : Bytes}
    (h : (b.length + 63) / 64 ≤ ChaCha20.maxBlocks) :
    keys.applyKeystream b = .ok (keys.keystreamXor b) :=
  ChaCha20.apply_of_le _ _ h

theorem length_keystreamXor (keys : MessageKeys) (b : Bytes) :
    (keys.keystreamXor b).length = b.length :=
  ChaCha20.length_xor_keystream _ _ b

theorem keystreamXor_keystreamXor (keys : MessageKeys) (b : Bytes) :
    keys.keystreamXor (keys.keystreamXor b) = b :=
  ChaCha20.xor_keystream_xor_keystream _ _ b

/-- How long the ciphertext of a frame is. -/
theorem length_of_isFrame {keys : MessageKeys} {c m : Bytes}
    (h : Padding.IsFrame (keys.keystreamXor c) m) : c.length = 2 + Padding.bucketLen m.length := by
  rw [← h.length_eq, length_keystreamXor]

/-- The payload of a message under the keys of a nonce. -/
def sealed (keys : MessageKeys) (nonce : Nonce) (m : Bytes) : Payload :=
  ⟨.current, nonce, keys.keystreamXor (Padding.frame m),
    keys.tag nonce (keys.keystreamXor (Padding.frame m))⟩

theorem tag_sealed (keys : MessageKeys) (nonce : Nonce) (m : Bytes) :
    (keys.sealed nonce m).tag =
      keys.tag (keys.sealed nonce m).nonce (keys.sealed nonce m).ciphertext := by
  rw [sealed]

theorem length_sealed (keys : MessageKeys) (nonce : Nonce) (m : Bytes) :
    (keys.sealed nonce m).ciphertext.length = 2 + Padding.bucketLen m.length := by
  rw [sealed, length_keystreamXor, Padding.length_frame]

end MessageKeys

namespace Payload

variable {p : Payload} {k : ConversationKey} {keys : MessageKeys}

/-- Nothing is decrypted before the tag is known to be right. -/
theorem decrypt_eq_ite (hk : MessageKeys.derive k p.nonce = .ok keys) :
    p.decrypt k =
      if p.tag = keys.tag p.nonce p.ciphertext then
        liftM (keys.applyKeystream p.ciphertext) >>= Padding.unpad
      else Attempt.refuse .decryptionFailed := by
  rw [decrypt, hk, Attempt.liftM_checked_ok, ok_bind, MessageKeys.verifyTag_eq,
    Attempt.liftM_checked_ok, ok_bind]
  simp only [decide_eq_true_eq, ← ByteVec.ext_iff]

theorem decrypt_of_tag_ne (hk : MessageKeys.derive k p.nonce = .ok keys)
    (ht : p.tag ≠ keys.tag p.nonce p.ciphertext) :
    p.decrypt k = Attempt.refuse .decryptionFailed := by
  rw [decrypt_eq_ite hk, if_neg ht]

theorem decrypt_of_tag_eq (hk : MessageKeys.derive k p.nonce = .ok keys)
    (ht : p.tag = keys.tag p.nonce p.ciphertext)
    (h : (p.ciphertext.length + 63) / 64 ≤ ChaCha20.maxBlocks) :
    p.decrypt k = Padding.unpad (keys.keystreamXor p.ciphertext) := by
  rw [decrypt_eq_ite hk, if_pos ht, keys.applyKeystream_of_le h, Attempt.liftM_checked_ok, ok_bind]

theorem decrypt_eq_ok_iff (hk : MessageKeys.derive k p.nonce = .ok keys)
    (h : (p.ciphertext.length + 63) / 64 ≤ ChaCha20.maxBlocks) {m : Bytes} :
    p.decrypt k = .ok m ↔
      p.tag = keys.tag p.nonce p.ciphertext ∧
        Padding.IsFrame (keys.keystreamXor p.ciphertext) m := by
  by_cases ht : p.tag = keys.tag p.nonce p.ciphertext
  · rw [decrypt_of_tag_eq hk ht h, Padding.unpad_eq_ok_iff, and_iff_right ht]
  · rw [decrypt_of_tag_ne hk ht]
    constructor
    · intro hr
      cases hr
    · intro hr
      exact absurd hr.1 ht

theorem decrypt_eq_ok_or_refuse (p : Payload) (k : ConversationKey)
    (h : (p.ciphertext.length + 63) / 64 ≤ ChaCha20.maxBlocks) :
    (∃ m, p.decrypt k = .ok m) ∨ p.decrypt k = Attempt.refuse .decryptionFailed := by
  obtain ⟨keys, hk⟩ := MessageKeys.exists_derive k p.nonce
  by_cases ht : p.tag = keys.tag p.nonce p.ciphertext
  · rw [decrypt_of_tag_eq hk ht h]
    exact Padding.unpad_eq_ok_or_refuse _
  · exact .inr (decrypt_of_tag_ne hk ht)

/-- Opening accepts the authenticated frames and nothing else, on ciphertexts of every length that
the cipher can number, and a wrong tag is refused whatever the ciphertext is. -/
theorem decrypt_accepts_authentic_frames (p : Payload) (k : ConversationKey)
    (h : (p.ciphertext.length + 63) / 64 ≤ ChaCha20.maxBlocks) :
    ∃ keys, MessageKeys.derive k p.nonce = .ok keys ∧
      (∀ m : Bytes, p.decrypt k = .ok m ↔
        p.tag = keys.tag p.nonce p.ciphertext ∧ 1 ≤ m.length ∧ m.length ≤ 65535 ∧
          ∃ (z : Bytes) (size : Word),
            Bytes.xor p.ciphertext
                (ChaCha20.keystream keys.cipherKey keys.cipherNonce p.ciphertext.length) =
              Bytes.bigEndian 2 m.length ++ m ++ z ∧
            Padding.paddedLen (UInt64.ofNat m.length) = .ok size ∧
            m.length + z.length = size.toNat) ∧
      ((∀ m : Bytes, p.decrypt k ≠ .ok m) →
        p.decrypt k = Attempt.refuse .decryptionFailed) ∧
      (p.tag ≠ keys.tag p.nonce p.ciphertext →
        p.decrypt k = Attempt.refuse .decryptionFailed) := by
  obtain ⟨keys, hk⟩ := MessageKeys.exists_derive k p.nonce
  refine ⟨keys, hk, ?_, ?_, decrypt_of_tag_ne hk⟩
  · intro m
    rw [decrypt_eq_ok_iff hk h, Padding.isFrame_iff]
    rfl
  · intro hno
    rcases decrypt_eq_ok_or_refuse p k h with ⟨m, hm⟩ | hr
    · exact absurd hm (hno m)
    · exact hr

/-- The payload of a short message, which is accepted; and one with an empty ciphertext, which no
text carries and whose tag may be right, but no frame is empty. -/
theorem decrypt_short_and_empty :
    (∃ keys, MessageKeys.derive ⟨.zeros 32⟩ (.zeros 32) = .ok keys ∧
      ((keys.sealed (.zeros 32) [104, 105]).ciphertext.length + 63) / 64 ≤ ChaCha20.maxBlocks ∧
      (keys.sealed (.zeros 32) [104, 105]).decrypt ⟨.zeros 32⟩ = .ok [104, 105]) ∧
    ((⟨.v1, .zeros 32, [], .zeros 32⟩ : Payload).ciphertext.length + 63) / 64 ≤
        ChaCha20.maxBlocks ∧
      Payload.decrypt ⟨.v1, .zeros 32, [], .zeros 32⟩ ⟨.zeros 32⟩ =
        Attempt.refuse .decryptionFailed := by
  constructor
  · obtain ⟨keys, hk⟩ := MessageKeys.exists_derive ⟨.zeros 32⟩ (.zeros 32)
    have hblocks : ((keys.sealed (.zeros 32) [104, 105]).ciphertext.length + 63) / 64 ≤
        ChaCha20.maxBlocks := by
      rw [keys.length_sealed]
      decide
    obtain ⟨keys', hk', hiff, -⟩ :=
      decrypt_accepts_authentic_frames (keys.sealed (.zeros 32) [104, 105]) ⟨.zeros 32⟩ hblocks
    obtain rfl := Except.ok.inj (hk.symm.trans hk')
    have hframe := keys.keystreamXor_keystreamXor (Padding.frame [104, 105])
    exact ⟨keys, hk, hblocks, (hiff _).2 ⟨keys.tag_sealed _ _, by decide, by decide,
      List.replicate 30 0, 32, hframe, by decide, by decide⟩⟩
  · refine ⟨by decide, ?_⟩
    obtain ⟨keys, -, hiff, hno, -⟩ :=
      decrypt_accepts_authentic_frames ⟨.v1, .zeros 32, [], .zeros 32⟩ ⟨.zeros 32⟩ (by decide)
    apply hno
    intro m hm
    obtain ⟨-, -, -, z, size, hx, -, -⟩ := (hiff m).1 hm
    have hl := congrArg List.length hx
    simp only [Bytes.length_xor, List.length_append, Bytes.length_bigEndian, List.length_nil] at hl
    omega

end Payload

end SealedMessage
