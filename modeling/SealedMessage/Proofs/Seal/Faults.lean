import Mathlib
import SealedMessage.Proofs.Seal.Acceptance
import SealedMessage.Proofs.Seal.Agreement

/-! No input leads to a fault: what is not a value is a refusal, all the way through the pipeline.
Every access is in range because of a check before it, and the one fault that is left is that of a
cipher that runs out of blocks. -/

namespace SealedMessage

/-- A value or a refusal. -/
inductive Attempt.IsFaultless {α : Type} : Attempt α → Prop
  | value (a : α) : IsFaultless (.ok a)
  | refusal (r : Refusal) : IsFaultless (refuse r)

namespace Attempt

variable {α β : Type} {x : Attempt α}

theorem IsFaultless.ne_fault (h : x.IsFaultless) (f : Fault) : x ≠ .error (.fault f) := by
  cases h with
  | value a => nofun
  | refusal r => nofun

theorem isFaultless_of_ok_or_refuse {r : Refusal} (h : (∃ a, x = .ok a) ∨ x = refuse r) :
    x.IsFaultless := by
  rcases h with ⟨a, rfl⟩ | rfl
  · exact .value a
  · exact .refusal r

theorem IsFaultless.bind {f : α → Attempt β} (h : x.IsFaultless)
    (hf : ∀ a, x = .ok a → (f a).IsFaultless) : (x >>= f).IsFaultless := by
  cases h with
  | value a => exact hf a rfl
  | refusal r => exact .refusal r

end Attempt

namespace Padding

end Padding

namespace Payload

theorem isFaultless_decode (s : String) : (decode s).IsFaultless := by
  rcases decode_eq_ok_or_refuse s with ⟨p, hp⟩ | ⟨r, -, hr⟩
  · rw [hp]
    exact .value p
  · rw [hr]
    exact .refusal r

variable {p : Payload} {k : ConversationKey} {keys : MessageKeys}

theorem isFaultless_decrypt (p : Payload) (k : ConversationKey)
    (h : (p.ciphertext.length + 63) / 64 ≤ ChaCha20.maxBlocks) : (p.decrypt k).IsFaultless :=
  Attempt.isFaultless_of_ok_or_refuse (decrypt_eq_ok_or_refuse p k h)

/-- Where the cipher runs out of blocks, a right tag leads to a fault, and a wrong one does not. -/
theorem isFaultless_decrypt_iff (hk : MessageKeys.derive k p.nonce = .ok keys) :
    (p.decrypt k).IsFaultless ↔ (p.ciphertext.length + 63) / 64 ≤ ChaCha20.maxBlocks ∨
      p.tag ≠ keys.tag p.nonce p.ciphertext := by
  constructor
  · intro hd
    by_contra hno
    obtain ⟨hb, ht⟩ := not_or.1 hno
    refine hd.ne_fault .keystreamExhausted ?_
    rw [decrypt_eq_ite hk, if_pos (not_not.1 ht), MessageKeys.applyKeystream, ChaCha20.apply,
      if_neg hb]
    rfl
  · rintro (hb | ht)
    · exact isFaultless_decrypt p k hb
    · rw [decrypt_of_tag_ne hk ht]
      exact .refusal _

end Payload

namespace ConversationKey

/-- A text is too short to carry a ciphertext that the cipher has not enough blocks for. -/
theorem isFaultless_decrypt (k : ConversationKey) (s : String) : (k.decrypt s).IsFaultless :=
  (Payload.isFaultless_decode s).bind fun p hp =>
    p.isFaultless_decrypt k (Payload.blocks_le_of_decode hp)

end ConversationKey

end SealedMessage
