import Mathlib
import SealedMessage.Proofs.Cipher.Positions
import SealedMessage.Proofs.Seal.RoundTrip

/-! What the cipher does to a byte depends on the byte's position and on the keys, and on nothing
else. So two messages under one key and one nonce have the difference of their frames as the
difference of their ciphertexts, and whoever sees both texts sees it. -/

namespace SealedMessage

namespace MessageKeys

variable (keys : MessageKeys)

theorem getElem?_keystreamXor {b : Bytes} {i : ℕ} (h : i < b.length) :
    (keys.keystreamXor b)[i]? =
      some (b[i] ^^^ ChaCha20.streamByte keys.cipherKey keys.cipherNonce i) :=
  ChaCha20.getElem?_xor_keystream _ _ h

theorem take_keystreamXor (b : Bytes) (cut : ℕ) :
    (keys.keystreamXor b).take cut = keys.keystreamXor (b.take cut) :=
  ChaCha20.take_xor_keystream _ _ b cut

theorem xor_keystreamXor (b c : Bytes) :
    Bytes.xor (keys.keystreamXor b) (keys.keystreamXor c) = Bytes.xor b c :=
  ChaCha20.xor_of_xor_keystream _ _ b c

theorem xor_ciphertext_sealed (nonce : Nonce) (m m' : Bytes) :
    Bytes.xor (keys.sealed nonce m).ciphertext (keys.sealed nonce m').ciphertext =
      Bytes.xor (Padding.frame m) (Padding.frame m') :=
  keys.xor_keystreamXor _ _

end MessageKeys

/-- Each byte is added to the byte of one stream at its position. The stream is that of the cipher's
key and nonce. So doing it twice undoes it, a prefix is treated as the prefix of the whole, and
under one nonce the stream is the same for all messages. -/
theorem applyKeystream_adds_by_position :
    (∀ (keys : MessageKeys) (b : Bytes), (b.length + 63) / 64 ≤ ChaCha20.maxBlocks →
      ∃ out, keys.applyKeystream b = .ok out ∧ out.length = b.length ∧
        (∀ i (h : i < b.length),
          out[i]? = some (b[i] ^^^ ChaCha20.streamByte keys.cipherKey keys.cipherNonce i)) ∧
        keys.applyKeystream out = .ok b ∧
        ∀ cut, keys.applyKeystream (b.take cut) = .ok (out.take cut)) ∧
    ∀ (k : ConversationKey) (nonce : Nonce) (m m' : Bytes), 1 ≤ m.length ∧ m.length ≤ 65535 →
      1 ≤ m'.length ∧ m'.length ≤ 65535 →
      ∃ s s' p p' x x', k.encrypt nonce m = .ok s ∧ k.encrypt nonce m' = .ok s' ∧
        Payload.decode s = .ok p ∧ Payload.decode s' = .ok p' ∧
        Padding.pad m = .ok x ∧ Padding.pad m' = .ok x' ∧
        p.ciphertext.length = x.length ∧ p'.ciphertext.length = x'.length ∧
        Bytes.xor p.ciphertext p'.ciphertext = Bytes.xor x x' := by
  constructor
  · intro keys b hb
    have hlen := keys.length_keystreamXor b
    refine ⟨keys.keystreamXor b, keys.applyKeystream_of_le hb, hlen,
      fun i h => keys.getElem?_keystreamXor h, ?_, fun cut => ?_⟩
    · rw [keys.applyKeystream_of_le (by rwa [hlen]), keys.keystreamXor_keystreamXor]
    · have hcut : (b.take cut).length ≤ b.length := List.length_take_le' cut b
      rw [keys.take_keystreamXor, keys.applyKeystream_of_le (by omega)]
  · intro k nonce m m' hm hm'
    obtain ⟨keys, s, hk, hs, hp⟩ := k.exists_sealed nonce hm.1 hm.2
    obtain ⟨keys', s', hk', hs', hp'⟩ := k.exists_sealed nonce hm'.1 hm'.2
    -- the message keys come from the key and the nonce, and not from the message
    obtain rfl := Except.ok.inj (hk.symm.trans hk')
    exact ⟨s, s', _, _, _, _, hs, hs', hp, hp', Padding.pad_of_le hm.1 hm.2,
      Padding.pad_of_le hm'.1 hm'.2, keys.length_keystreamXor _, keys.length_keystreamXor _,
      keys.xor_ciphertext_sealed nonce m m'⟩

/-- Zeros into a second block, which show the stream itself, and two short messages under one nonce:
what they have in common is zero in the difference of their ciphertexts. -/
theorem applyKeystream_adds_by_position_zeros :
    let keys : MessageKeys := ⟨.zeros 32, .zeros 12, .zeros 32⟩
    let b : Bytes := List.replicate 70 0
    let k : ConversationKey := ⟨.zeros 32⟩
    let m : Bytes := [104, 105]
    let m' : Bytes := [104]
    ((b.length + 63) / 64 ≤ ChaCha20.maxBlocks ∧
      ∃ out, keys.applyKeystream b = .ok out ∧ out.length = 70 ∧ out[64]? = some 0x9f ∧
        keys.applyKeystream out = .ok b ∧ keys.applyKeystream (b.take 65) = .ok (out.take 65)) ∧
    (1 ≤ m.length ∧ m.length ≤ 65535) ∧ (1 ≤ m'.length ∧ m'.length ≤ 65535) ∧
      ∃ s s' p p', k.encrypt (.zeros 32) m = .ok s ∧ k.encrypt (.zeros 32) m' = .ok s' ∧
        Payload.decode s = .ok p ∧ Payload.decode s' = .ok p' ∧
        Bytes.xor p.ciphertext p'.ciphertext = [0, 3, 0, 105] ++ List.replicate 30 0 := by
  intro keys b k m m'
  obtain ⟨hpositions, hreuse⟩ := applyKeystream_adds_by_position
  have hb : (b.length + 63) / 64 ≤ ChaCha20.maxBlocks := by decide
  obtain ⟨out, hout, hlen, hbyte, hback, hcut⟩ := hpositions keys b hb
  have h64 : b[64] ^^^ ChaCha20.streamByte (.zeros 32) (.zeros 12) 64 = 0x9f := by decide +kernel
  have hm : 1 ≤ m.length ∧ m.length ≤ 65535 := by decide
  have hm' : 1 ≤ m'.length ∧ m'.length ≤ 65535 := by decide
  obtain ⟨s, s', p, p', x, x', hs, hs', hp, hp', hx, hx', -, -, hxor⟩ :=
    hreuse k (.zeros 32) m m' hm hm'
  obtain rfl := Except.ok.inj (hx.symm.trans (Padding.pad_of_le hm.1 hm.2))
  obtain rfl := Except.ok.inj (hx'.symm.trans (Padding.pad_of_le hm'.1 hm'.2))
  have hframes : Bytes.xor (Padding.frame m) (Padding.frame m') =
      [0, 3, 0, 105] ++ List.replicate 30 0 := by decide
  exact ⟨⟨hb, out, hout, hlen, (hbyte 64 (by decide)).trans (congrArg some h64), hback, hcut 65⟩,
    hm, hm', s, s', p, p', hs, hs', hp, hp', hxor.trans hframes⟩

end SealedMessage
