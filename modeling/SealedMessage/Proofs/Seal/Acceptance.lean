import Mathlib
import SealedMessage.Proofs.Payload.Canonical
import SealedMessage.Proofs.Seal.Opening

/-! A text is accepted under a key exactly if it decodes to a payload with the right tag whose
ciphertext is a frame under the keystream. -/

namespace SealedMessage

variable {k : ConversationKey} {s : String} {p : Payload}

/-- The keystream is long enough for every payload that a text can carry. -/
theorem Payload.blocks_le_of_decode (h : Payload.decode s = .ok p) :
    (p.ciphertext.length + 63) / 64 ≤ ChaCha20.maxBlocks := by
  obtain ⟨-, hle, -⟩ := Payload.decode_eq_ok_iff.1 h
  rw [ChaCha20.maxBlocks]
  omega

namespace ConversationKey

theorem decrypt_of_decode (h : Payload.decode s = .ok p) : k.decrypt s = p.decrypt k := by
  rw [decrypt, h, ok_bind]

theorem decrypt_eq_ok_iff {m : Bytes} :
    k.decrypt s = .ok m ↔ ∃ p keys, Payload.decode s = .ok p ∧
      MessageKeys.derive k p.nonce = .ok keys ∧ p.tag = keys.tag p.nonce p.ciphertext ∧
      Padding.IsFrame (keys.keystreamXor p.ciphertext) m := by
  constructor
  · intro h
    cases hp : Payload.decode s with
    | error e =>
      rw [decrypt, hp] at h
      cases h
    | ok p =>
      obtain ⟨keys, hk⟩ := MessageKeys.exists_derive k p.nonce
      rw [decrypt_of_decode hp] at h
      exact ⟨p, keys, rfl, hk,
        (Payload.decrypt_eq_ok_iff hk (Payload.blocks_le_of_decode hp)).1 h⟩
  · rintro ⟨p, keys, hp, hk, h⟩
    rw [decrypt_of_decode hp]
    exact (Payload.decrypt_eq_ok_iff hk (Payload.blocks_le_of_decode hp)).2 h

/-- What an accepted text says of the payload that it carries. -/
theorem tag_eq_of_decrypt {m : Bytes} (h : k.decrypt s = .ok m) (hp : Payload.decode s = .ok p) :
    ∃ keys, MessageKeys.derive k p.nonce = .ok keys ∧ p.tag = keys.tag p.nonce p.ciphertext := by
  obtain ⟨q, keys, hq, hk, ht, -⟩ := decrypt_eq_ok_iff.1 h
  obtain rfl := Except.ok.inj (hp.symm.trans hq)
  exact ⟨keys, hk, ht⟩

end ConversationKey

end SealedMessage
