import Mathlib
import SealedMessage.Proofs.Padding.Least
import SealedMessage.Proofs.Seal.RoundTrip

/-! The size of a payload's text shows the bucket of its message and nothing else: base64 neither
splits a bucket nor merges two of them. -/

namespace SealedMessage

open Padding

namespace Payload

/-- The bytes in the text of a payload whose message has this bucket. -/
def textSize (bucket : ℕ) : ℕ := 4 * ((67 + bucket) ⌈/⌉ 3)

theorem textSize_eq (bucket : ℕ) : textSize bucket = 4 * ((67 + bucket + 2) / 3) := by
  rw [textSize, Nat.ceilDiv_eq_add_pred_div, Nat.add_sub_assoc (by decide : 1 ≤ 3)]

theorem textSize_mono {b c : ℕ} (h : b ≤ c) : textSize b ≤ textSize c := by
  rw [textSize_eq, textSize_eq]
  omega

/-- Rounding up to groups of three bytes cannot close a gap of 32 bytes. -/
theorem textSize_bucketLen_lt {m n : ℕ} (h : bucketLen m < bucketLen n) :
    textSize (bucketLen m) < textSize (bucketLen n) := by
  have hm := thirtyTwo_dvd_bucketLen m
  have hn := thirtyTwo_dvd_bucketLen n
  rw [textSize_eq, textSize_eq]
  omega

theorem textSize_bucketLen_eq_iff {m n : ℕ} :
    textSize (bucketLen m) = textSize (bucketLen n) ↔ bucketLen m = bucketLen n := by
  constructor
  · intro h
    rcases lt_trichotomy (bucketLen m) (bucketLen n) with hlt | heq | hgt
    · exact absurd h (textSize_bucketLen_lt hlt).ne
    · exact heq
    · exact absurd h (textSize_bucketLen_lt hgt).ne'
  · intro h
    rw [h]

theorem textSize_bounds {n : ℕ} (h : n ≤ 65535) :
    132 ≤ textSize (bucketLen n) ∧ textSize (bucketLen n) ≤ 87472 := by
  have hmin := thirtyTwo_le_bucketLen n
  have hmax := bucketLen_le h
  rw [textSize_eq]
  omega

end Payload

theorem ConversationKey.exists_encrypt_size (k : ConversationKey) (nonce : Nonce) {m : Bytes}
    (h₁ : 1 ≤ m.length) (h₂ : m.length ≤ 65535) :
    ∃ s, k.encrypt nonce m = .ok s ∧ s.utf8ByteSize = Payload.textSize (bucketLen m.length) := by
  obtain ⟨keys, hk⟩ := MessageKeys.exists_derive k nonce
  refine ⟨_, encrypt_eq_text hk h₁ h₂, ?_⟩
  rw [Text.Base64.utf8ByteSize_text_eq_ceilDiv, Payload.length_toBytes, MessageKeys.length_sealed,
    Payload.textSize, ← Nat.add_assoc]

/-- Whatever the keys, the nonces and the messages are, two texts have one size exactly if the
lengths of their messages have one bucket, and the larger bucket has the larger text. -/
theorem ConversationKey.encrypt_shows_bucket (k₁ k₂ : ConversationKey) (n₁ n₂ : Nonce)
    (m₁ m₂ : Bytes) (h₁ : 1 ≤ m₁.length ∧ m₁.length ≤ 65535)
    (h₂ : 1 ≤ m₂.length ∧ m₂.length ≤ 65535) :
    ∃ s₁ s₂ size₁ size₂, k₁.encrypt n₁ m₁ = .ok s₁ ∧ k₂.encrypt n₂ m₂ = .ok s₂ ∧
      paddedLen (UInt64.ofNat m₁.length) = .ok size₁ ∧
      paddedLen (UInt64.ofNat m₂.length) = .ok size₂ ∧
      s₁.utf8ByteSize = 4 * ((67 + size₁.toNat) ⌈/⌉ 3) ∧
      s₂.utf8ByteSize = 4 * ((67 + size₂.toNat) ⌈/⌉ 3) ∧
      (132 ≤ s₁.utf8ByteSize ∧ s₁.utf8ByteSize ≤ 87472) ∧
      (s₁.utf8ByteSize = s₂.utf8ByteSize ↔ size₁ = size₂) ∧
      (m₁.length ≤ m₂.length → s₁.utf8ByteSize ≤ s₂.utf8ByteSize) ∧
      (size₁ < size₂ → s₁.utf8ByteSize < s₂.utf8ByteSize) := by
  obtain ⟨s₁, hs₁, hz₁⟩ := k₁.exists_encrypt_size n₁ h₁.1 h₁.2
  obtain ⟨s₂, hs₂, hz₂⟩ := k₂.exists_encrypt_size n₂ h₂.1 h₂.2
  obtain ⟨size₁, hp₁, hv₁⟩ := exists_paddedLen h₁.2
  obtain ⟨size₂, hp₂, hv₂⟩ := exists_paddedLen h₂.2
  refine ⟨s₁, s₂, size₁, size₂, hs₁, hs₂, hp₁, hp₂, by rw [hz₁, hv₁, Payload.textSize],
    by rw [hz₂, hv₂, Payload.textSize], ?_, ?_, ?_, ?_⟩
  · rw [hz₁]
    exact Payload.textSize_bounds h₁.2
  · rw [hz₁, hz₂, Payload.textSize_bucketLen_eq_iff, ← hv₁, ← hv₂, UInt64.toNat_inj]
  · intro hle
    rw [hz₁, hz₂]
    exact Payload.textSize_mono (bucketLen_mono hle)
  · intro hlt
    rw [hz₁, hz₂]
    rw [UInt64.lt_iff_toNat_lt, hv₁, hv₂] at hlt
    exact Payload.textSize_bucketLen_lt hlt

/-- The shortest and the longest message have the shortest and the longest text. -/
theorem ConversationKey.encrypt_shows_bucket_extremes :
    let m₁ : Bytes := [104]
    let m₂ : Bytes := List.replicate 65535 105
    (1 ≤ m₁.length ∧ m₁.length ≤ 65535) ∧ (1 ≤ m₂.length ∧ m₂.length ≤ 65535) ∧
      ∃ s₁ s₂, ConversationKey.encrypt ⟨.zeros 32⟩ (.zeros 32) m₁ = .ok s₁ ∧
        ConversationKey.encrypt ⟨.zeros 32⟩ (.zeros 32) m₂ = .ok s₂ ∧
        s₁.utf8ByteSize = 132 ∧ s₂.utf8ByteSize = 87472 := by
  intro m₁ m₂
  have hl : m₂.length = 65535 := List.length_replicate
  obtain ⟨s₁, s₂, size₁, size₂, hs₁, hs₂, hp₁, hp₂, hz₁, hz₂, -⟩ :=
    ConversationKey.encrypt_shows_bucket ⟨.zeros 32⟩ ⟨.zeros 32⟩ (.zeros 32) (.zeros 32) m₁ m₂
      ⟨by decide, by decide⟩ ⟨by omega, by omega⟩
  have hv₁ : paddedLen (UInt64.ofNat m₁.length) = .ok 32 := by decide
  have hv₂ : paddedLen (UInt64.ofNat m₂.length) = .ok 65536 := by
    rw [hl]
    decide +kernel
  obtain rfl := Except.ok.inj (hp₁.symm.trans hv₁)
  obtain rfl := Except.ok.inj (hp₂.symm.trans hv₂)
  exact ⟨⟨by decide, by decide⟩, ⟨by omega, by omega⟩, s₁, s₂, hs₁, hs₂, hz₁.trans (by decide),
    hz₂.trans (by decide)⟩

end SealedMessage
