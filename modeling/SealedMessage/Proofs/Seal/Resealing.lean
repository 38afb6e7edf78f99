import Mathlib
import SealedMessage.Proofs.Seal.Acceptance
import SealedMessage.Proofs.Seal.RoundTrip

/-! Encrypting what was decrypted, under the nonce that it came with, gives a text of the same size.
It is the same text unless the first one had an old version or padding that was not zeros. -/

namespace SealedMessage

variable {k : ConversationKey} {keys : MessageKeys} {p : Payload} {m : Bytes}

namespace MessageKeys

/-- A payload with a right tag is determined by its version and its frame. -/
theorem sealed_eq_iff (ht : p.tag = keys.tag p.nonce p.ciphertext)
    (hf : Padding.IsFrame (keys.keystreamXor p.ciphertext) m) :
    keys.sealed p.nonce m = p ↔ p.version = .current ∧
      ∀ b ∈ (keys.keystreamXor p.ciphertext).drop (2 + m.length), b = 0 := by
  rw [← hf.eq_frame_iff]
  constructor
  · intro h
    have hv := congrArg Payload.version h
    have hc := congrArg Payload.ciphertext h
    simp only [sealed] at hv hc
    exact ⟨hv.symm, by rw [← hc, keystreamXor_keystreamXor]⟩
  · rintro ⟨hv, hx⟩
    have hc : keys.keystreamXor (Padding.frame m) = p.ciphertext := by
      rw [← hx, keystreamXor_keystreamXor]
    rw [sealed, hc, ← ht, ← hv]

end MessageKeys

/-- The sizes agree because the frames of a message have one size. -/
theorem Payload.length_toBytes_sealed (hf : Padding.IsFrame (keys.keystreamXor p.ciphertext) m) :
    (keys.sealed p.nonce m).toBytes.length = p.toBytes.length := by
  rw [length_toBytes, length_toBytes, MessageKeys.length_sealed, MessageKeys.length_of_isFrame hf]

/-- What is accepted, up to its version and its padding, is what encryption writes. -/
theorem ConversationKey.encrypt_of_decrypt (k : ConversationKey) (s : String) (m : Bytes)
    (hd : k.decrypt s = .ok m) :
    ∃ p keys x s', Payload.decode s = .ok p ∧ MessageKeys.derive k p.nonce = .ok keys ∧
      keys.applyKeystream p.ciphertext = .ok x ∧ k.encrypt p.nonce m = .ok s' ∧
      s'.utf8ByteSize = (Text.trim s).utf8ByteSize ∧ k.decrypt s' = .ok m ∧
      (s' = Text.trim s ↔ p.version = .v2 ∧ ∀ b ∈ x.drop (2 + m.length), b = 0) := by
  obtain ⟨p, keys, hp, hk, ht, hf⟩ := decrypt_eq_ok_iff.1 hd
  obtain ⟨-, -, htrim⟩ := Payload.decode_eq_ok_iff.1 hp
  have h₁ : 1 ≤ m.length := hf.1
  have h₂ : m.length ≤ 65535 := hf.2.1
  refine ⟨p, keys, _, _, hp, hk, keys.applyKeystream_of_le (Payload.blocks_le_of_decode hp),
    encrypt_eq_text hk h₁ h₂, ?_, decrypt_of_trim hk h₁ h₂ (Text.Base64.trim_text _), ?_⟩
  · rw [htrim, Text.Base64.utf8ByteSize_text, Text.Base64.utf8ByteSize_text,
      Payload.length_toBytes_sealed hf]
  · rw [htrim, Text.Base64.text_injective.eq_iff, Payload.toBytes_injective.eq_iff,
      MessageKeys.sealed_eq_iff ht hf]
    rfl

/-- A message between a space and a line break, padded with ones: it is accepted, and encrypting it
again gives another text. -/
theorem ConversationKey.encrypt_of_decrypt_padded_with_ones :
    let k : ConversationKey := ⟨.zeros 32⟩
    let m : Bytes := [104, 105]
    ∃ s s', k.decrypt s = .ok m ∧ k.encrypt (.zeros 32) m = .ok s' ∧ k.decrypt s' = .ok m ∧
      s'.utf8ByteSize = (Text.trim s).utf8ByteSize ∧ s' ≠ Text.trim s := by
  intro k m
  obtain ⟨keys, hk⟩ := MessageKeys.exists_derive k (.zeros 32)
  let x : Bytes := Bytes.bigEndian 2 2 ++ m ++ List.replicate 30 1
  let c := keys.keystreamXor x
  let p : Payload := ⟨.v2, .zeros 32, c, keys.tag (.zeros 32) c⟩
  let s := " " ++ Text.Base64.text p.toBytes ++ "\n"
  have hx : keys.keystreamXor c = x := keys.keystreamXor_keystreamXor x
  have hl : c.length = 34 := keys.length_keystreamXor x
  have hp : Payload.decode s = .ok p :=
    Payload.decode_eq_ok_iff.2 ⟨hl.ge, hl.le.trans (by decide),
      Payload.trim_append_text _ (by simp [Text.isBlank]) (by simp [Text.isBlank])⟩
  have hf : Padding.IsFrame (keys.keystreamXor c) m :=
    hx ▸ ⟨by decide, by decide, List.replicate 30 1, rfl, by decide⟩
  have hd : k.decrypt s = .ok m := ConversationKey.decrypt_eq_ok_iff.2 ⟨p, keys, hp, hk, rfl, hf⟩
  obtain ⟨p', keys', x', s', hp', hk', hx', hs', hsize, hd', hiff⟩ :=
    ConversationKey.encrypt_of_decrypt k s m hd
  obtain rfl := Except.ok.inj (hp.symm.trans hp')
  obtain rfl := Except.ok.inj (hk.symm.trans hk')
  rw [keys.applyKeystream_of_le (Payload.blocks_le_of_decode hp), hx] at hx'
  obtain rfl := Except.ok.inj hx'
  refine ⟨s, s', hd, hs', hd', hsize, fun he => ?_⟩
  exact absurd (hiff.1 he).2 (by decide)

end SealedMessage
