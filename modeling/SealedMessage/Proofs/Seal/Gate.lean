import Mathlib
import SealedMessage.Proofs.Padding.Least
import SealedMessage.Proofs.Seal.Refusals
import SealedMessage.Proofs.Seal.RoundTrip

/-! The lengths that decryption lets through. Whoever made a text, and whatever key it meets, its
bytes are those of a payload around a bucket. So bytes that are removed or inserted other than 32 at
a time are noticed without the tag. -/

namespace SealedMessage

open Padding Text

variable {k : ConversationKey} {s : String} {m d : Bytes}

/-- An accepted text has the bytes of its payload, and they are as many as the message tells. -/
theorem ConversationKey.exists_bytes_of_decrypt (h : k.decrypt s = .ok m) :
    ∃ d, Base64.decode? (utf8 (trim s)) = some d ∧ d.length = 67 + bucketLen m.length := by
  obtain ⟨p, keys, hp, -, -, hf⟩ := decrypt_eq_ok_iff.1 h
  refine ⟨p.toBytes, Payload.decode?_of_decode hp, ?_⟩
  rw [p.length_toBytes, MessageKeys.length_of_isFrame hf, ← Nat.add_assoc]

theorem ConversationKey.length_text_of_decrypt (h : k.decrypt (Base64.text d) = .ok m) :
    d.length = 67 + bucketLen m.length := by
  obtain ⟨d', hd', hl⟩ := exists_bytes_of_decrypt h
  rw [Base64.trim_text, Base64.decode?_utf8_text] at hd'
  rw [Option.some.inj hd', hl]

theorem ConversationKey.decrypt_eq_ok_or_refuse (k : ConversationKey) (s : String) :
    (∃ m, k.decrypt s = .ok m) ∨ ∃ r : Refusal, k.decrypt s = Attempt.refuse r := by
  cases hx : k.decrypt s with
  | ok m => exact .inl ⟨m, rfl⟩
  | error e =>
    obtain ⟨r, rfl, -⟩ := (IsAnswer.underKey k).exists_refusal hx
    exact .inr ⟨r, rfl⟩

/-- The gate, for every key: no tag helps bytes of another residue. -/
theorem ConversationKey.decrypt_text_of_mod (k : ConversationKey) (h : d.length % 32 ≠ 3) :
    ∃ r : Refusal, k.decrypt (Base64.text d) = Attempt.refuse r := by
  refine (k.decrypt_eq_ok_or_refuse _).resolve_left ?_
  rintro ⟨m, hm⟩
  have hdvd := thirtyTwo_dvd_bucketLen m.length
  have hl := length_text_of_decrypt hm
  omega

/-- The number of bytes in an accepted text is that of a bucket and 67 more. Any bytes whose number
differs from it by no multiple of 32 are refused under every key, also under one that is known to
whoever chose them. -/
theorem ConversationKey.decrypt_gates_length (k : ConversationKey) (s : String) (m : Bytes)
    (h : k.decrypt s = .ok m) :
    ∃ d, Base64.decode? (utf8 (trim s)) = some d ∧
      (∃ (j : ℕ) (size : Word), 1 ≤ j ∧ j ≤ 65535 ∧ paddedLen (UInt64.ofNat j) = .ok size ∧
        d.length = 67 + size.toNat) ∧
      d.length % 32 = 3 ∧
      ∀ (d' : Bytes) (k' : ConversationKey), ¬ (32 : ℤ) ∣ (d'.length : ℤ) - d.length →
        ∃ r : Refusal, k'.decrypt (Base64.text d') = Attempt.refuse r := by
  obtain ⟨d, hd, hl⟩ := exists_bytes_of_decrypt h
  obtain ⟨-, -, -, -, -, h₁, h₂, -⟩ := decrypt_eq_ok_iff.1 h
  obtain ⟨size, hs, vs⟩ := exists_paddedLen h₂
  have hdvd := thirtyTwo_dvd_bucketLen m.length
  refine ⟨d, hd, ⟨m.length, size, h₁, h₂, hs, by rw [hl, vs]⟩, by omega, ?_⟩
  intro d' k' hne
  exact k'.decrypt_text_of_mod (by omega)

/-- A byte more behind the tag, a byte less in front, and 31 bytes in the midst of the
ciphertext. -/
theorem ConversationKey.decrypt_gates_length_three :
    let k : ConversationKey := ⟨.zeros 32⟩
    ∃ s d, k.decrypt s = .ok [104, 105] ∧ Base64.decode? (utf8 (trim s)) = some d ∧
      d.length % 32 = 3 ∧ ∀ (b : UInt8) (k' : ConversationKey),
        (∃ r : Refusal, k'.decrypt (Base64.text (d ++ [b])) = Attempt.refuse r) ∧
        (∃ r : Refusal, k'.decrypt (Base64.text d.tail) = Attempt.refuse r) ∧
        ∃ r : Refusal,
          k'.decrypt (Base64.text (d.take 50 ++ List.replicate 31 b ++ d.drop 50)) =
            Attempt.refuse r := by
  intro k
  obtain ⟨s, -, hs⟩ := k.exists_encrypt (.zeros 32) (m := [104, 105]) (by decide) (by decide)
  obtain ⟨d, hd, ⟨j, size, -, -, -, hl⟩, hmod, hgate⟩ :=
    ConversationKey.decrypt_gates_length k s [104, 105] hs
  refine ⟨s, d, hs, hd, hmod, fun b k' => ⟨hgate _ k' ?_, hgate _ k' ?_, hgate _ k' ?_⟩⟩
  · rw [List.length_append, List.length_singleton]
    omega
  · rw [List.length_tail]
    omega
  · rw [List.length_append, List.length_append, List.length_take, List.length_drop,
      List.length_replicate]
    omega

end SealedMessage
