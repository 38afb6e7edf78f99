import Mathlib
import SealedMessage.Proofs.Seal.RoundTrip

/-! What encryption writes. The length of a message alone decides whether it is refused, and every
byte of what is written is given by the key, the nonce and the message. Under one key no text is
written for two messages or for two nonces. -/

namespace SealedMessage

/-- The frame, which is as long as its bucket and the length before it, under the keystream. -/
theorem MessageKeys.ciphertext_sealed (keys : MessageKeys) (nonce : Nonce) (m : Bytes) :
    (keys.sealed nonce m).ciphertext =
      Bytes.xor
        (Bytes.bigEndian 2 m.length ++ m ++
          List.replicate (Padding.bucketLen m.length - m.length) 0)
        (ChaCha20.keystream keys.cipherKey keys.cipherNonce (2 + Padding.bucketLen m.length)) := by
  rw [← Padding.length_frame]
  rfl

namespace ConversationKey

variable {k : ConversationKey} {nonce nonce' : Nonce} {m m' : Bytes}

theorem eq_of_encrypt_eq {s : String} (h : k.encrypt nonce m = .ok s)
    (h' : k.encrypt nonce' m' = .ok s) : m = m' ∧ nonce = nonce' := by
  obtain ⟨⟨h₁, h₂⟩, keys, hk, hs⟩ := encrypt_eq_ok_iff.1 h
  obtain ⟨⟨h₁', h₂'⟩, keys', hk', hs'⟩ := encrypt_eq_ok_iff.1 h'
  have hsealed : keys.sealed nonce m = keys'.sealed nonce' m' :=
    Payload.toBytes_injective (Text.Base64.text_injective (hs.symm.trans hs'))
  have hm := Payload.decrypt_sealed hk h₁ h₂
  rw [hsealed, Payload.decrypt_sealed hk' h₁' h₂'] at hm
  exact ⟨(Except.ok.inj hm).symm, congrArg Payload.nonce hsealed⟩

theorem length_of_encrypt_eq_error {e : Stop} (h : k.encrypt nonce m = .error e) :
    ¬ (1 ≤ m.length ∧ m.length ≤ 65535) := by
  rintro ⟨h₁, h₂⟩
  obtain ⟨s, hs, -⟩ := k.exists_encrypt nonce h₁ h₂
  cases h.symm.trans hs

/-- A message of any other length is refused with its length, and nothing else is; a message of
acceptable length has its frame encrypted, the ciphertext authenticated with the nonce before it,
and all of it written in the current version. -/
theorem encrypt_emits (k : ConversationKey) (nonce : Nonce) (m : Bytes) :
    (m.length = 0 ∨ 65535 < m.length →
      k.encrypt nonce m = Attempt.refuse (.plaintextLength m.length)) ∧
    (1 ≤ m.length ∧ m.length ≤ 65535 → ∃ s keys size c tag,
      k.encrypt nonce m = .ok s ∧ Payload.decode s = .ok ⟨.v2, nonce, c, tag⟩ ∧
      s = Text.Base64.text (2 :: (nonce.toList ++ c ++ tag.toList)) ∧
      MessageKeys.derive k nonce = .ok keys ∧
      Padding.paddedLen (UInt64.ofNat m.length) = .ok size ∧ c.length = 2 + size.toNat ∧
      c = Bytes.xor
        (Bytes.bigEndian 2 m.length ++ m ++ List.replicate (size.toNat - m.length) 0)
        (ChaCha20.keystream keys.cipherKey keys.cipherNonce (2 + size.toNat)) ∧
      tag = Hmac.mac keys.authKey.toList (nonce.toList ++ c)) ∧
    (∀ e, k.encrypt nonce m = .error e →
      (m.length = 0 ∨ 65535 < m.length) ∧ e = .refused (.plaintextLength m.length)) ∧
    ∀ (nonce' : Nonce) (m' : Bytes) (s : String), k.encrypt nonce m = .ok s →
      k.encrypt nonce' m' = .ok s → m = m' ∧ nonce = nonce' := by
  refine ⟨?_, ?_, ?_, fun nonce' m' s => eq_of_encrypt_eq⟩
  · intro hm
    exact encrypt_of_not (by omega)
  · rintro ⟨h₁, h₂⟩
    obtain ⟨keys, hk⟩ := MessageKeys.exists_derive k nonce
    obtain ⟨size, hsize, hv⟩ := Padding.exists_paddedLen h₂
    have hl := keys.length_sealed nonce m
    have hc := keys.ciphertext_sealed nonce m
    rw [← hv] at hl hc
    exact ⟨_, keys, size, _, _, encrypt_eq_text hk h₁ h₂,
      Payload.decode_sealed h₂ (Text.Base64.trim_text _), rfl, hk, hsize, hl, hc, rfl⟩
  · intro e he
    have hm := length_of_encrypt_eq_error he
    rw [encrypt_of_not hm] at he
    exact ⟨by omega, (Except.error.inj he).symm⟩

/-- A short message under two nonces, which gives two texts, and an empty one. -/
theorem encrypt_emits_two_nonces :
    let k : ConversationKey := ⟨.zeros 32⟩
    let m : Bytes := [104, 105]
    (1 ≤ m.length ∧ m.length ≤ 65535) ∧
      k.encrypt (.zeros 32) [] = Attempt.refuse (.plaintextLength 0) ∧
      ∃ s s' c tag, k.encrypt (.zeros 32) m = .ok s ∧ k.encrypt (.bigEndian 32 1) m = .ok s' ∧
        Payload.decode s = .ok ⟨.v2, .zeros 32, c, tag⟩ ∧ c.length = 34 ∧ s ≠ s' := by
  intro k m
  obtain ⟨-, hm, -, hinj⟩ := encrypt_emits k (.zeros 32) m
  obtain ⟨s, keys, size, c, tag, hs, hp, -, -, hsize, hc, -⟩ := hm (by decide)
  obtain ⟨s', hs', -⟩ := k.exists_encrypt (.bigEndian 32 1) (m := m) (by decide) (by decide)
  have hv : Padding.paddedLen (UInt64.ofNat m.length) = .ok 32 := by decide
  obtain rfl := Except.ok.inj (hsize.symm.trans hv)
  refine ⟨by decide, (encrypt_emits k (.zeros 32) []).1 (.inl rfl), s, s', c, tag, hs, hs', hp, hc,
    ?_⟩
  rintro rfl
  exact absurd (hinj _ m s hs hs').2 (by decide)

-- the published payload of the message "a": every hash, every keystream block and the text
example : encrypt
    ⟨.bigEndian 32 0xc41c775356fd92eadc63ff5a0dc1da211b268cbea22316767095b2871ea1412d⟩
    (.bigEndian 32 1) [97] =
      .ok ("AgAAAAAAAAAAAAAAAAAAAAAAAAAAAAAAAAAAAAAAAAABee0G5VSK0/9YypIObAtDKfYEAjD35uVkHyB0F4" ++
        "DwrcNaCXlCWZKaArsGrY6M9wnuTMxWfp1RTN9Xga8no+kF5Vsb") := by
  decide +kernel

end ConversationKey

end SealedMessage
