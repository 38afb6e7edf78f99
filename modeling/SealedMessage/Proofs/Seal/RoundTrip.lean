import Mathlib
import SealedMessage.Proofs.Payload.Canonical
import SealedMessage.Proofs.Seal.Opening

/-! What is encrypted under a conversation key decrypts to the message again, for every acceptable
length, and its text passes every check of the decoder. -/

namespace SealedMessage

variable {k : ConversationKey} {keys : MessageKeys} {nonce : Nonce} {m : Bytes}

/-- The whole of encryption on a message of acceptable length. -/
theorem ConversationKey.encrypt_eq_text (hk : MessageKeys.derive k nonce = .ok keys)
    (h₁ : 1 ≤ m.length) (h₂ : m.length ≤ 65535) :
    k.encrypt nonce m = .ok (Text.Base64.text (keys.sealed nonce m).toBytes) := by
  have hmax := Padding.bucketLen_le h₂
  have hblocks : ((Padding.frame m).length + 63) / 64 ≤ ChaCha20.maxBlocks := by
    rw [Padding.length_frame, ChaCha20.maxBlocks]
    omega
  rw [encrypt, Padding.pad_of_le h₁ h₂, ok_bind, hk, Attempt.liftM_checked_ok, ok_bind,
    keys.applyKeystream_of_le hblocks, Attempt.liftM_checked_ok, ok_bind, keys.computeTag_eq,
    Attempt.liftM_checked_ok, ok_bind]
  rfl

theorem ConversationKey.encrypt_of_not (h : ¬ (1 ≤ m.length ∧ m.length ≤ 65535)) :
    k.encrypt nonce m = Attempt.refuse (.plaintextLength m.length) := by
  rw [encrypt, Padding.pad_of_not h, Attempt.refuse_bind]

/-- The length of the message alone decides whether it is encrypted. -/
theorem ConversationKey.encrypt_eq_ok_iff {s : String} :
    k.encrypt nonce m = .ok s ↔ (1 ≤ m.length ∧ m.length ≤ 65535) ∧
      ∃ keys, MessageKeys.derive k nonce = .ok keys ∧
        s = Text.Base64.text (keys.sealed nonce m).toBytes := by
  constructor
  · intro h
    by_cases hm : 1 ≤ m.length ∧ m.length ≤ 65535
    · obtain ⟨keys, hk⟩ := MessageKeys.exists_derive k nonce
      rw [encrypt_eq_text hk hm.1 hm.2] at h
      exact ⟨hm, keys, hk, (Except.ok.inj h).symm⟩
    · rw [encrypt_of_not hm] at h
      cases h
  · rintro ⟨hm, keys, hk, rfl⟩
    exact encrypt_eq_text hk hm.1 hm.2

/-- The bounds of the decoder are those of the padding, at both ends. -/
theorem Payload.decode_sealed (h : m.length ≤ 65535) {s : String}
    (hs : Text.trim s = Text.Base64.text (keys.sealed nonce m).toBytes) :
    decode s = .ok (keys.sealed nonce m) := by
  have hmin := Padding.thirtyTwo_le_bucketLen m.length
  have hmax := Padding.bucketLen_le h
  have hl := keys.length_sealed nonce m
  exact decode_eq_ok_iff.2 ⟨by omega, by omega, hs⟩

theorem Payload.decrypt_sealed (hk : MessageKeys.derive k nonce = .ok keys) (h₁ : 1 ≤ m.length)
    (h₂ : m.length ≤ 65535) : (keys.sealed nonce m).decrypt k = .ok m := by
  have hmax := Padding.bucketLen_le h₂
  have hl := keys.length_sealed nonce m
  refine (decrypt_eq_ok_iff (p := keys.sealed nonce m) hk ?_).2 ⟨keys.tag_sealed nonce m, ?_⟩
  · rw [hl, ChaCha20.maxBlocks]
    omega
  · rw [MessageKeys.sealed, MessageKeys.keystreamXor_keystreamXor]
    exact Padding.isFrame_frame h₁ h₂

theorem ConversationKey.decrypt_of_trim (hk : MessageKeys.derive k nonce = .ok keys)
    (h₁ : 1 ≤ m.length) (h₂ : m.length ≤ 65535) {s : String}
    (hs : Text.trim s = Text.Base64.text (keys.sealed nonce m).toBytes) : k.decrypt s = .ok m := by
  rw [decrypt, Payload.decode_sealed h₂ hs, ok_bind, Payload.decrypt_sealed hk h₁ h₂]

theorem ConversationKey.exists_encrypt (k : ConversationKey) (nonce : Nonce) (h₁ : 1 ≤ m.length)
    (h₂ : m.length ≤ 65535) : ∃ s, k.encrypt nonce m = .ok s ∧ k.decrypt s = .ok m := by
  obtain ⟨keys, hk⟩ := MessageKeys.exists_derive k nonce
  exact ⟨_, encrypt_eq_text hk h₁ h₂, decrypt_of_trim hk h₁ h₂ (Text.Base64.trim_text _)⟩

theorem ConversationKey.exists_sealed (k : ConversationKey) (nonce : Nonce) (h₁ : 1 ≤ m.length)
    (h₂ : m.length ≤ 65535) : ∃ keys s, MessageKeys.derive k nonce = .ok keys ∧
      k.encrypt nonce m = .ok s ∧ Payload.decode s = .ok (keys.sealed nonce m) := by
  obtain ⟨keys, hk⟩ := MessageKeys.exists_derive k nonce
  exact ⟨keys, _, hk, encrypt_eq_text hk h₁ h₂, Payload.decode_sealed h₂ (Text.Base64.trim_text _)⟩

/-- Blanks around the text do not matter, and the key need not come from any pair of keys. -/
theorem ConversationKey.decrypt_encrypt_blanks (k : ConversationKey) (nonce : Nonce) (m : Bytes)
    (h₁ : 1 ≤ m.length) (h₂ : m.length ≤ 65535) :
    ∃ s, k.encrypt nonce m = .ok s ∧
      (∃ p, Payload.decode s = .ok p ∧ p.version = .current) ∧
      ∀ w₁ w₂ : String, (∀ c ∈ w₁.toList, Text.isBlank c = true) →
        (∀ c ∈ w₂.toList, Text.isBlank c = true) → k.decrypt (w₁ ++ s ++ w₂) = .ok m := by
  obtain ⟨keys, hk⟩ := MessageKeys.exists_derive k nonce
  refine ⟨_, encrypt_eq_text hk h₁ h₂, ⟨_, Payload.decode_sealed h₂ (Text.Base64.trim_text _), rfl⟩,
    ?_⟩
  intro w₁ w₂ hw₁ hw₂
  exact decrypt_of_trim hk h₁ h₂ (Payload.trim_append_text _ hw₁ hw₂)

/-- The longest message, with a space before its text and a line break behind it. -/
theorem ConversationKey.decrypt_encrypt_blanks_longest :
    let m := List.replicate 65535 (97 : UInt8)
    (1 ≤ m.length ∧ m.length ≤ 65535) ∧
      ∃ s, ConversationKey.encrypt ⟨.zeros 32⟩ (.zeros 32) m = .ok s ∧
        ConversationKey.decrypt ⟨.zeros 32⟩ (" " ++ s ++ "\n") = .ok m := by
  intro m
  have hl : m.length = 65535 := List.length_replicate
  obtain ⟨s, hs, -, hd⟩ :=
    ConversationKey.decrypt_encrypt_blanks ⟨.zeros 32⟩ (.zeros 32) m (by omega) (by omega)
  exact ⟨⟨by omega, by omega⟩, s, hs,
    hd " " "\n" (by simp [Text.isBlank]) (by simp [Text.isBlank])⟩

end SealedMessage
