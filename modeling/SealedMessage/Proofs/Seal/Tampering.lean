import Mathlib
import SealedMessage.Proofs.Seal.Acceptance
import SealedMessage.Proofs.Seal.RoundTrip

/-! Tampering. A changed tag alone is refused. Any other change that is accepted with the old tag
makes two macs equal, and they are of one string only if the nonce and the ciphertext were left
alone. -/

namespace SealedMessage

/-- Two messages that one key cannot tell apart. -/
def Hmac.IsCollision (key m m' : Bytes) : Prop := m ≠ m' ∧ mac key m = mac key m'

/-- What the tag covers; the version is not in it. -/
def Payload.covered (p : Payload) : Bytes := p.nonce.toList ++ p.ciphertext

/-- Nonces have one size, so what is covered shows where the nonce ends. -/
theorem Payload.covered_eq_iff {p q : Payload} :
    p.covered = q.covered ↔ p.nonce = q.nonce ∧ p.ciphertext = q.ciphertext := by
  constructor
  · intro h
    obtain ⟨hn, hc⟩ := List.append_inj h (p.nonce.length_eq.trans q.nonce.length_eq.symm)
    exact ⟨ByteVec.ext hn, hc⟩
  · rintro ⟨hn, hc⟩
    rw [covered, covered, hn, hc]

namespace ConversationKey

variable {k : ConversationKey} {keys : MessageKeys} {s : String} {p q : Payload}

theorem decrypt_of_changed_tag (hk : MessageKeys.derive k p.nonce = .ok keys)
    (ht : p.tag = keys.tag p.nonce p.ciphertext) (hs : Payload.decode s = .ok q)
    (hn : q.nonce = p.nonce) (hc : q.ciphertext = p.ciphertext) (hq : q.tag ≠ p.tag) :
    k.decrypt s = Attempt.refuse .decryptionFailed := by
  rw [decrypt_of_decode hs]
  exact Payload.decrypt_of_tag_ne (hn ▸ hk) (by rwa [hn, hc, ← ht])

theorem mac_eq_of_decrypt (ht : p.tag = keys.tag p.nonce p.ciphertext)
    (hs : Payload.decode s = .ok q) (hq : q.tag = p.tag) {m : Bytes} (h : k.decrypt s = .ok m) :
    ∃ keys', MessageKeys.derive k q.nonce = .ok keys' ∧
      Hmac.mac keys'.authKey.toList q.covered = Hmac.mac keys.authKey.toList p.covered := by
  obtain ⟨keys', hk', ht'⟩ := tag_eq_of_decrypt h hs
  exact ⟨keys', hk', ht'.symm.trans (hq.trans ht)⟩

theorem isCollision_of_decrypt (hk : MessageKeys.derive k p.nonce = .ok keys)
    (ht : p.tag = keys.tag p.nonce p.ciphertext) (hs : Payload.decode s = .ok q)
    (hn : q.nonce = p.nonce) (hq : q.tag = p.tag) (hc : q.ciphertext ≠ p.ciphertext) {m : Bytes}
    (h : k.decrypt s = .ok m) : Hmac.IsCollision keys.authKey.toList p.covered q.covered := by
  obtain ⟨keys', hk', hmac⟩ := mac_eq_of_decrypt ht hs hq h
  rw [hn] at hk'
  obtain rfl := Except.ok.inj (hk.symm.trans hk')
  exact ⟨fun he => hc (Payload.covered_eq_iff.1 he).2.symm, hmac.symm⟩

/-- Tampering with an encrypted message, under its own key or another one. -/
theorem encrypt_tampered (k : ConversationKey) (nonce : Nonce) (m : Bytes) (h₁ : 1 ≤ m.length)
    (h₂ : m.length ≤ 65535) :
    ∃ s p keys, k.encrypt nonce m = .ok s ∧ Payload.decode s = .ok p ∧ p.nonce = nonce ∧
      MessageKeys.derive k nonce = .ok keys ∧
      ∀ (s' : String) (p' : Payload), Payload.decode s' = .ok p' →
        (p'.nonce = p.nonce → p'.ciphertext = p.ciphertext → p'.tag ≠ p.tag →
          k.decrypt s' = Attempt.refuse .decryptionFailed) ∧
        (∀ m' : Bytes, k.decrypt s' = .ok m' → p'.nonce = p.nonce → p'.tag = p.tag →
          p'.ciphertext ≠ p.ciphertext →
          Hmac.IsCollision keys.authKey.toList p.covered p'.covered) ∧
        (∀ (k' : ConversationKey) (m' : Bytes), k'.decrypt s' = .ok m' → p'.tag = p.tag →
          ∃ keys', MessageKeys.derive k' p'.nonce = .ok keys' ∧
            Hmac.mac keys'.authKey.toList p'.covered = Hmac.mac keys.authKey.toList p.covered) ∧
        (p'.covered = p.covered → p'.nonce = p.nonce ∧ p'.ciphertext = p.ciphertext) := by
  obtain ⟨keys, s, hk, hs, hp⟩ := k.exists_sealed nonce h₁ h₂
  have ht := keys.tag_sealed nonce m
  have hn : (keys.sealed nonce m).nonce = nonce := rfl
  generalize keys.sealed nonce m = p at hp ht hn
  subst hn
  refine ⟨s, p, keys, hs, hp, rfl, hk, fun s' p' hp' => ⟨?_, ?_, ?_, ?_⟩⟩
  · intro hn hc hq
    exact decrypt_of_changed_tag hk ht hp' hn hc hq
  · intro m' hm' hn hq hc
    exact isCollision_of_decrypt hk ht hp' hn hq hc hm'
  · intro k' m' hm' hq
    exact mac_eq_of_decrypt ht hp' hq hm'
  · exact Payload.covered_eq_iff.1

/-- Of one message, a text with some other tag, which is refused, and a text with an old version,
which is accepted, since both its macs are of one string. -/
theorem encrypt_tampered_tag_and_version :
    let k : ConversationKey := ⟨.zeros 32⟩
    let m : Bytes := [104, 105]
    (1 ≤ m.length ∧ m.length ≤ 65535) ∧
      ∃ s p s₁ p₁ s₂ p₂, k.encrypt (.zeros 32) m = .ok s ∧ Payload.decode s = .ok p ∧
        (Payload.decode s₁ = .ok p₁ ∧ p₁.nonce = p.nonce ∧ p₁.ciphertext = p.ciphertext ∧
          p₁.tag ≠ p.tag ∧ k.decrypt s₁ = Attempt.refuse .decryptionFailed) ∧
        (Payload.decode s₂ = .ok p₂ ∧ p₂.version ≠ p.version ∧ p₂.tag = p.tag ∧
          k.decrypt s₂ = .ok m ∧ ∃ keys keys₂, MessageKeys.derive k p.nonce = .ok keys ∧
            MessageKeys.derive k p₂.nonce = .ok keys₂ ∧
            Hmac.mac keys₂.authKey.toList p₂.covered =
              Hmac.mac keys.authKey.toList p.covered) := by
  intro k m
  obtain ⟨s, p, keys, hs, hp, hn, hk, htamper⟩ :=
    encrypt_tampered k (.zeros 32) m (by decide) (by decide)
  have hv : p.version = .v2 := by
    obtain ⟨keys', s', -, hs', hp'⟩ := k.exists_sealed (.zeros 32) (m := m) (by decide) (by decide)
    obtain rfl := Except.ok.inj (hs.symm.trans hs')
    exact congrArg Payload.version (Except.ok.inj (hp.symm.trans hp'))
  have hm : k.decrypt s = .ok m := by
    obtain ⟨s', hs', hm⟩ := k.exists_encrypt (.zeros 32) (m := m) (by decide) (by decide)
    rwa [Except.ok.inj (hs.symm.trans hs')]
  have hspell (q : Payload) (hc : q.ciphertext = p.ciphertext) :
      Payload.decode (Text.Base64.text q.toBytes) = .ok q := by
    obtain ⟨h34, hmax, -⟩ := Payload.decode_eq_ok_iff.1 hp
    exact Payload.decode_eq_ok_iff.2 ⟨hc ▸ h34, hc ▸ hmax, Text.Base64.trim_text _⟩
  have : Nontrivial Tag := ⟨.zeros 32, .bigEndian 32 1, by decide⟩
  obtain ⟨t, ht⟩ := exists_ne p.tag
  have hp₁ := hspell { p with tag := t } rfl
  have hp₂ := hspell { p with version := .v0 } rfl
  have hm₂ : k.decrypt (Text.Base64.text { p with version := .v0 }.toBytes) = .ok m := by
    rw [decrypt_of_decode hp] at hm
    rw [decrypt_of_decode hp₂]
    exact hm
  have hne : ({ p with version := .v0 } : Payload).version ≠ p.version := by
    rw [hv]
    exact Version.noConfusion
  obtain ⟨keys₂, hk₂, hmac⟩ := (htamper _ _ hp₂).2.2.1 k m hm₂ rfl
  exact ⟨by decide, s, p, _, _, _, _, hs, hp, ⟨hp₁, rfl, rfl, ht, (htamper _ _ hp₁).1 rfl rfl ht⟩,
    hp₂, hne, rfl, hm₂, keys, keys₂, hn ▸ hk, hk₂, hmac⟩

end ConversationKey

end SealedMessage
