import Mathlib
import SealedMessage.Proofs.Seal.Acceptance
import SealedMessage.Proofs.Seal.Agreement

/-! Refusals tell nothing of the keys. A text that carries no payload is refused for what it is,
under all keys alike, and a text that carries one has only one way to be refused. -/

namespace SealedMessage

/-- The answers to a text, under a conversation key or between two keys. -/
inductive IsAnswer (s : String) : Attempt Bytes → Prop
  | underKey (k : ConversationKey) : IsAnswer s (k.decrypt s)
  | betweenKeys (secret : SecretKey) (other : PublicKey) : IsAnswer s (decrypt secret other s)

namespace IsAnswer

variable {s : String} {x : Attempt Bytes} {p : Payload}

/-- Between two keys there is nothing to learn that a conversation key does not tell. -/
theorem exists_key (h : IsAnswer s x) : ∃ k : ConversationKey, x = k.decrypt s := by
  cases h with
  | underKey k => exact ⟨k, rfl⟩
  | betweenKeys secret other => exact ⟨_, decrypt_eq secret other s⟩

theorem eq_error (h : IsAnswer s x) {e : Stop} (he : Payload.decode s = .error e) :
    x = .error e := by
  obtain ⟨k, hx⟩ := h.exists_key
  rw [hx, ConversationKey.decrypt, he, error_bind]

theorem eq_ok_or_refuse (h : IsAnswer s x) (hp : Payload.decode s = .ok p) :
    (∃ m : Bytes, x = .ok m ∧ 1 ≤ m.length ∧ m.length ≤ 65535) ∨
      x = Attempt.refuse .decryptionFailed := by
  obtain ⟨k, hx⟩ := h.exists_key
  rw [hx, ConversationKey.decrypt_of_decode hp]
  have hblocks := Payload.blocks_le_of_decode hp
  rcases Payload.decrypt_eq_ok_or_refuse p k hblocks with ⟨m, hm⟩ | hr
  · obtain ⟨keys, hk⟩ := MessageKeys.exists_derive k p.nonce
    obtain ⟨-, h₁, h₂, -⟩ := (Payload.decrypt_eq_ok_iff hk hblocks).1 hm
    exact .inl ⟨m, hm, h₁, h₂⟩
  · exact .inr hr

theorem eq_refusal (h : IsAnswer s x) (hp : Payload.decode s = .ok p) {e : Stop}
    (he : x = .error e) : e = .refused .decryptionFailed := by
  rcases h.eq_ok_or_refuse hp with ⟨m, hm, -⟩ | hr
  · cases he.symm.trans hm
  · exact Except.error.inj (he.symm.trans hr)

/-- An answer without a message is a refusal, and of a kind that names neither a key nor the length
of a message. -/
theorem exists_refusal (h : IsAnswer s x) {e : Stop} (he : x = .error e) :
    ∃ r : Refusal, e = .refused r ∧ (r.IsStructural ∨ r = .decryptionFailed) := by
  rcases Payload.decode_eq_ok_or_refuse s with ⟨p, hp⟩ | ⟨r, hr, hp⟩
  · exact ⟨_, h.eq_refusal hp he, .inr rfl⟩
  · exact ⟨r, Except.error.inj (he.symm.trans (h.eq_error hp)), .inl hr⟩

end IsAnswer

/-- Whatever keys a text meets, its refusal shows no more of them than whether they fit, and what is
wrong with the text itself is said before they are used. -/
theorem refusal_independent_of_keys (s : String) :
    (∀ e, Payload.decode s = .error e → ∀ x, IsAnswer s x → x = .error e) ∧
    (∀ p, Payload.decode s = .ok p → ∀ x, IsAnswer s x →
      (∃ m : Bytes, x = .ok m ∧ 1 ≤ m.length ∧ m.length ≤ 65535) ∨
        x = Attempt.refuse .decryptionFailed) ∧
    (∀ (s' : String) (p p' : Payload), Payload.decode s = .ok p → Payload.decode s' = .ok p' →
      ∀ x x', IsAnswer s x → IsAnswer s' x' →
        ∀ e e', x = .error e → x' = .error e' → e = e') ∧
    (∀ (secret : SecretKey) (other : PublicKey),
      decrypt secret other s = (ConversationKey.derive secret other).decrypt s) ∧
    ∀ x, IsAnswer s x →
      (∀ n, x ≠ Attempt.refuse (.plaintextLength n)) ∧ (∀ d, x ≠ Attempt.refuse (.badKey d)) ∧
        ∀ f, x ≠ .error (.fault f) := by
  refine ⟨fun e he x hx => hx.eq_error he, fun p hp x hx => hx.eq_ok_or_refuse hp, ?_,
    fun secret other => decrypt_eq secret other s, ?_⟩
  · intro s' p p' hp hp' x x' hx hx' e e' he he'
    rw [hx.eq_refusal hp he, hx'.eq_refusal hp' he']
  · intro x hx
    refine ⟨fun n he => ?_, fun d he => ?_, fun f he => ?_⟩
    all_goals obtain ⟨r, hr, hkind⟩ := hx.exists_refusal he
    all_goals cases hr
    · rcases hkind with hkind | hkind <;> cases hkind
    · rcases hkind with hkind | hkind <;> cases hkind

/-- A text in some other encoding; and of two payloads under one key, a wrong tag, and a right tag
over a frame of zeros. The first is refused for what it is, and the other two look alike. -/
theorem refusal_independent_of_keys_tag_and_frame :
    let k : ConversationKey := ⟨.zeros 32⟩
    (Payload.decode "#" = Attempt.refuse (.badPayload .marker) ∧
      k.decrypt "#" = Attempt.refuse (.badPayload .marker)) ∧
      ∃ s p s' p' e e', Payload.decode s = .ok p ∧ Payload.decode s' = .ok p' ∧
        k.decrypt s = .error e ∧ k.decrypt s' = .error e' ∧ p.ciphertext = p'.ciphertext ∧
        p.tag ≠ p'.tag ∧ e = e' := by
  intro k
  have hmarker : Payload.decode "#" = Attempt.refuse (.badPayload .marker) := by rfl
  obtain ⟨keys, hk⟩ := MessageKeys.exists_derive k (.zeros 32)
  obtain ⟨c, hl, hc⟩ : ∃ c : Bytes, c.length = 34 ∧ keys.keystreamXor c = List.replicate 34 0 :=
    ⟨_, (keys.length_keystreamXor _).trans (List.length_replicate),
      keys.keystreamXor_keystreamXor _⟩
  have hspell (t : Tag) :
      Payload.decode (Text.Base64.text (Payload.toBytes ⟨.v2, .zeros 32, c, t⟩)) =
        .ok ⟨.v2, .zeros 32, c, t⟩ :=
    Payload.decode_text_toBytes _ hl.ge (hl.le.trans (by decide))
  have : Nontrivial Tag := ⟨.zeros 32, .bigEndian 32 1, by decide⟩
  obtain ⟨t, ht⟩ := exists_ne (keys.tag (.zeros 32) c)
  have hp := hspell t
  have hp' := hspell (keys.tag (.zeros 32) c)
  have hx := (ConversationKey.decrypt_of_decode hp).trans (Payload.decrypt_of_tag_ne hk ht)
  have hx' := (ConversationKey.decrypt_of_decode hp').trans
    (Payload.decrypt_of_tag_eq hk rfl (Payload.blocks_le_of_decode hp'))
  have hzeros : Padding.unpad (List.replicate 34 0) = Attempt.refuse .decryptionFailed :=
    (Padding.unpad_cons_cons 0 0 (List.replicate 32 0)).trans (if_neg (by decide))
  rw [hc, hzeros] at hx'
  obtain ⟨hfirst, -⟩ := refusal_independent_of_keys "#"
  obtain ⟨-, -, halike, -⟩ := refusal_independent_of_keys (Text.Base64.text
    (Payload.toBytes ⟨.v2, .zeros 32, c, t⟩))
  exact ⟨⟨hmarker, hfirst _ hmarker _ (.underKey k)⟩, _, _, _, _, _, _, hp, hp', hx, hx', rfl, ht,
    halike _ _ _ hp hp' _ _ (.underKey k) (.underKey k) _ _ hx hx'⟩

end SealedMessage
