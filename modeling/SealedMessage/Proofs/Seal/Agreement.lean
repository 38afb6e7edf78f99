import Mathlib
import SealedMessage.Proofs.Key.Agreement
import SealedMessage.Proofs.Seal.Drawing

/-! What one of two key pairs encrypts for the other, both of them decrypt to the message again. -/

namespace SealedMessage

theorem decrypt_eq (secret : SecretKey) (other : PublicKey) (text : String) :
    decrypt secret other text = (ConversationKey.derive secret other).decrypt text := rfl

/-- The recipient and the sender both read what the sender encrypts, under a nonce that is given or
drawn. -/
theorem decrypt_encrypt_between_keys (a b : SecretKey) (nonce : Nonce) (m : Bytes)
    (h₁ : 1 ≤ m.length) (h₂ : m.length ≤ 65535) :
    ∃ A B s, a.publicKey = .ok A ∧ b.publicKey = .ok B ∧
      encrypt a B nonce m = .ok s ∧
      (∀ draws, encryptDrawing a B (some nonce) m draws = (.ok s, draws)) ∧
      (∀ rest, encryptDrawing a B none m (nonce :: rest) = (.ok s, rest)) ∧
      decrypt b A s = .ok m ∧ decrypt a B s = .ok m := by
  obtain ⟨A, hA, hAa⟩ := a.exists_publicKey
  obtain ⟨B, hB, hBb⟩ := b.exists_publicKey
  have hagree : ConversationKey.derive b A = ConversationKey.derive a B :=
    ConversationKey.derive_comm hBb hAa
  obtain ⟨s, hs, hd⟩ := (ConversationKey.derive a B).exists_encrypt nonce h₁ h₂
  refine ⟨A, B, s, hA, hB, ?_, ?_, ?_, ?_, ?_⟩
  · rw [encrypt, encryptDrawing_some a B nonce h₁ h₂, hs]
  · intro draws
    rw [encryptDrawing_some a B nonce h₁ h₂, hs]
  · intro rest
    rw [encryptDrawing_none a B nonce h₁ h₂, hs]
  · rw [decrypt_eq, hagree, hd]
  · rw [decrypt_eq, hd]

/-- The pairs of opposite points, which have one public key. -/
theorem decrypt_encrypt_between_opposite_keys :
    let a : SecretKey := ⟨1, by decide, by decide⟩
    let b : SecretKey := ⟨Curve.order - 1, by decide, by decide⟩
    let m : Bytes := [104, 105]
    (1 ≤ m.length ∧ m.length ≤ 65535) ∧
      ∃ A B s, a.publicKey = .ok A ∧ b.publicKey = .ok B ∧
        encrypt a B (.zeros 32) m = .ok s ∧ decrypt b A s = .ok m ∧ decrypt a B s = .ok m := by
  intro a b m
  obtain ⟨A, B, s, hA, hB, hs, -, -, hb, ha⟩ :=
    decrypt_encrypt_between_keys a b (.zeros 32) m (by decide) (by decide)
  exact ⟨by decide, A, B, s, hA, hB, hs, hb, ha⟩

end SealedMessage
