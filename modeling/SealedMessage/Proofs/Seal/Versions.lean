import Mathlib
import SealedMessage.Proofs.Seal.Acceptance
import SealedMessage.Proofs.Seal.Agreement

/-! Versions. The three versions that are read are decrypted alike, whatever the payload is; every
other first byte is refused before any key is used; and only the current version is written. -/

namespace SealedMessage

open Text

namespace Payload

/-- A payload's version is in its text and nowhere in what it decrypts to. -/
theorem decrypt_with_version (p : Payload) (v : Version) (k : ConversationKey) :
    { p with version := v }.decrypt k = p.decrypt k := rfl

/-- A byte string of admissible length falls into fields, and its first byte alone decides whether
its text is decoded. -/
theorem exists_decode_set {d : Bytes} (h₁ : minDecoded ≤ d.length) (h₂ : d.length ≤ maxDecoded) :
    ∃ p : Payload,
      (∀ v : Version, d.set 0 v.toByte = { p with version := v }.toBytes ∧
        decode (Base64.text (d.set 0 v.toByte)) = .ok { p with version := v }) ∧
      ∀ b : UInt8, 2 < b →
        decode (Base64.text (d.set 0 b)) = Attempt.refuse (.unsupportedVersion b) := by
  have h65 : 65 ≤ d.length := by
    simp only [minDecoded] at h₁
    omega
  obtain ⟨first, nonce, ciphertext, tag, rfl⟩ := exists_fieldBytes h65
  have hset (b : UInt8) : decode (Base64.text ((fieldBytes first nonce ciphertext tag).set 0 b)) =
      (Version.ofByte b >>= fun v => .ok ⟨v, nonce, ciphertext, tag⟩ : Attempt Payload) := by
    rw [decode_text (by rwa [List.length_set]) (by rwa [List.length_set])]
    exact ofBytes_fieldBytes b nonce ciphertext tag
  refine ⟨⟨.current, nonce, ciphertext, tag⟩, fun v => ⟨rfl, ?_⟩, fun b hb => ?_⟩
  · rw [hset, Version.ofByte_toByte]
    rfl
  · rw [hset, Version.ofByte_of_gt hb]
    rfl

theorem encode_eq (p : Payload) :
    p.encode = if p.version.toByte = 2 then .ok (Base64.text p.toBytes)
      else .error (.unsupportedVersion p.version.toByte) := by
  simp only [encode, Version.toByte_eq_two_iff]

end Payload

/-- The first byte of what is written is the current version. -/
theorem ConversationKey.decode?_encrypt {k : ConversationKey} {nonce : Nonce} {m : Bytes}
    {s : String} (h : k.encrypt nonce m = .ok s) :
    ∃ r, Base64.decode? (utf8 s) = some (2 :: r) := by
  obtain ⟨-, keys, -, rfl⟩ := encrypt_eq_ok_iff.1 h
  exact ⟨_, Base64.decode?_utf8_text _⟩

/-- The first byte of a payload: its three admissible values cannot be told apart by decrypting,
under a conversation key or between two keys, every other value is refused whatever comes behind it,
and only one of them is ever written. -/
theorem decrypt_ignores_version (d : Bytes) (h₁ : 99 ≤ d.length) (h₂ : d.length ≤ 65603) :
    (∀ v w : UInt8, v ≤ 2 → w ≤ 2 →
      (∀ k : ConversationKey,
        k.decrypt (Base64.text (d.set 0 v)) = k.decrypt (Base64.text (d.set 0 w))) ∧
      ∀ (secret : SecretKey) (other : PublicKey),
        decrypt secret other (Base64.text (d.set 0 v)) =
          decrypt secret other (Base64.text (d.set 0 w))) ∧
    (∀ v : UInt8, 2 < v →
      (∀ k : ConversationKey,
        k.decrypt (Base64.text (d.set 0 v)) = Attempt.refuse (.unsupportedVersion v)) ∧
      ∀ (secret : SecretKey) (other : PublicKey),
        decrypt secret other (Base64.text (d.set 0 v)) =
          Attempt.refuse (.unsupportedVersion v)) ∧
    (∀ v : UInt8, v ≤ 2 → ∃ p, Payload.decode (Base64.text (d.set 0 v)) = .ok p ∧
      p.encode = if v = 2 then .ok (Base64.text (d.set 0 v)) else .error (.unsupportedVersion v)) ∧
    (∀ (k : ConversationKey) (nonce : Nonce) (m : Bytes) (s : String),
      k.encrypt nonce m = .ok s → ∃ r, Base64.decode? (utf8 s) = some (2 :: r)) ∧
    ∀ (secret : SecretKey) (other : PublicKey) (nonce : Option Nonce) (m : Bytes)
      (draws rest : Draws) (s : String),
      encryptDrawing secret other nonce m draws = (.ok s, rest) →
        ∃ r, Base64.decode? (utf8 s) = some (2 :: r) := by
  obtain ⟨p, hread, hrefuse⟩ := Payload.exists_decode_set h₁ h₂
  have hsame (v w : UInt8) (hv : v ≤ 2) (hw : w ≤ 2) (k : ConversationKey) :
      k.decrypt (Base64.text (d.set 0 v)) = k.decrypt (Base64.text (d.set 0 w)) := by
    obtain ⟨v, rfl⟩ := Version.exists_toByte hv
    obtain ⟨w, rfl⟩ := Version.exists_toByte hw
    rw [ConversationKey.decrypt_of_decode (hread v).2,
      ConversationKey.decrypt_of_decode (hread w).2,
      p.decrypt_with_version v, p.decrypt_with_version w]
  have hother (v : UInt8) (hv : 2 < v) (k : ConversationKey) :
      k.decrypt (Base64.text (d.set 0 v)) = Attempt.refuse (.unsupportedVersion v) := by
    rw [ConversationKey.decrypt, hrefuse v hv, Attempt.refuse_bind]
  refine ⟨fun v w hv hw => ⟨hsame v w hv hw, fun a B => hsame v w hv hw (.derive a B)⟩,
    fun v hv => ⟨hother v hv, fun a B => hother v hv (.derive a B)⟩, ?_,
    fun k nonce m s => ConversationKey.decode?_encrypt, ?_⟩
  · intro v hv
    obtain ⟨v, rfl⟩ := Version.exists_toByte hv
    obtain ⟨hbytes, hp⟩ := hread v
    exact ⟨_, hp, by rw [hbytes, Payload.encode_eq]⟩
  · intro secret other nonce m draws rest s h
    obtain ⟨n, hn⟩ := encryptDrawing_eq_ok secret other h
    exact ConversationKey.decode?_encrypt hn

/-- An encrypted message whose version is set back, which is still read, and then set ahead. -/
theorem decrypt_ignores_version_set_back :
    let k : ConversationKey := ⟨.zeros 32⟩
    let m : Bytes := [104, 105]
    ∃ d : Bytes, (99 ≤ d.length ∧ d.length ≤ 65603) ∧
      k.encrypt (.zeros 32) m = .ok (Base64.text d) ∧
      (∃ r, Base64.decode? (utf8 (Base64.text d)) = some (2 :: r)) ∧
      k.decrypt (Base64.text (d.set 0 0)) = .ok m ∧
      k.decrypt (Base64.text (d.set 0 3)) = Attempt.refuse (.unsupportedVersion 3) ∧
      ∃ p, Payload.decode (Base64.text (d.set 0 1)) = .ok p ∧
        p.encode = .error (.unsupportedVersion 1) := by
  intro k m
  obtain ⟨keys, hk⟩ := MessageKeys.exists_derive k (.zeros 32)
  have hm : 1 ≤ m.length ∧ m.length ≤ 65535 := by decide
  have hs := ConversationKey.encrypt_eq_text hk hm.1 hm.2
  have hcurrent : k.decrypt (Base64.text ((keys.sealed (.zeros 32) m).toBytes.set 0 2)) = .ok m :=
    ConversationKey.decrypt_of_trim hk hm.1 hm.2 (Base64.trim_text _)
  have hl : (keys.sealed (.zeros 32) m).toBytes.length = 99 := by
    rw [Payload.length_toBytes, MessageKeys.length_sealed]
    rfl
  generalize (keys.sealed (.zeros 32) m).toBytes = d at hs hcurrent hl
  obtain ⟨hsame, hother, hwrite, hfirst, -⟩ := decrypt_ignores_version d hl.ge (by omega)
  obtain ⟨p, hp, hencode⟩ := hwrite 1 (by decide)
  exact ⟨d, by omega, hs, hfirst k _ m _ hs,
    ((hsame 0 2 (by decide) (by decide)).1 k).trans hcurrent, (hother 3 (by decide)).1 k, p, hp,
    hencode⟩

end SealedMessage
