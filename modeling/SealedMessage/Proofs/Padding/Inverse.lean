import Mathlib
import SealedMessage.Proofs.Padding.Frame

/-! Padding and unpadding undo each other, as far as the padding's bytes allow: a message comes back
from its frame, and a frame comes back from its message if it was padded with zeros. -/

namespace SealedMessage.Padding

variable {x m : Bytes}

theorem pad_eq_ok_iff : pad m = .ok x ↔ (1 ≤ m.length ∧ m.length ≤ 65535) ∧ x = frame m := by
  by_cases hm : 1 ≤ m.length ∧ m.length ≤ 65535
  · rw [pad_of_le hm.1 hm.2, and_iff_right hm, Except.ok.injEq, eq_comm]
  · rw [pad_of_not hm]
    exact iff_of_false (by simp) (fun h => hm h.1)

/-- `frame`, with the size of its body as `paddedLen` gives it. -/
theorem eq_frame_iff (hm : m.length ≤ 65535) :
    x = frame m ↔ ∃ (z : Bytes) (size : Word), x = Bytes.bigEndian 2 m.length ++ m ++ z ∧
      paddedLen (UInt64.ofNat m.length) = .ok size ∧ m.length + z.length = size.toNat ∧
      ∀ b ∈ z, b = 0 := by
  obtain ⟨size, hs, vs⟩ := exists_paddedLen hm
  have hle := le_bucketLen m.length
  constructor
  · rintro rfl
    exact ⟨_, size, rfl, hs, by rw [List.length_replicate]; omega, by simp⟩
  · rintro ⟨z, size', rfl, hs', hz, hzeros⟩
    obtain rfl := Except.ok.inj (hs.symm.trans hs')
    exact (append_eq_frame_iff (hz.trans vs)).2 hzeros

theorem unpad_of_pad (h : pad m = .ok x) : unpad x = .ok m := by
  obtain ⟨⟨h₁, h₂⟩, rfl⟩ := pad_eq_ok_iff.1 h
  exact unpad_frame h₁ h₂

/-- What is unpadded can be padded, and then begins as it did. -/
theorem pad_of_unpad (h : unpad x = .ok m) :
    ∃ y, pad m = .ok y ∧ y.take (2 + m.length) = x.take (2 + m.length) ∧
      (y = x ↔ ∀ b ∈ x.drop (2 + m.length), b = 0) := by
  have hf := unpad_eq_ok_iff.1 h
  have h₁ : 1 ≤ m.length := hf.1
  have h₂ : m.length ≤ 65535 := hf.2.1
  refine ⟨frame m, pad_of_le h₁ h₂, ?_, ?_⟩
  · rw [hf.take_eq, (isFrame_frame h₁ h₂).take_eq]
  · rw [← hf.eq_frame_iff, eq_comm]

/-- Unpadding accepts the frames and nothing else, padding writes the one frame with zeros, and the
padding's bytes are all that can be lost between them. -/
theorem unpad_inverts_pad (x m : Bytes) :
    (unpad x = .ok m ↔ 1 ≤ m.length ∧ m.length ≤ 65535 ∧
      ∃ (z : Bytes) (size : Word), x = Bytes.bigEndian 2 m.length ++ m ++ z ∧
        paddedLen (UInt64.ofNat m.length) = .ok size ∧ m.length + z.length = size.toNat) ∧
    ((∀ m', unpad x ≠ .ok m') → unpad x = Attempt.refuse .decryptionFailed) ∧
    (pad m = .ok x ↔ (1 ≤ m.length ∧ m.length ≤ 65535) ∧
      ∃ (z : Bytes) (size : Word), x = Bytes.bigEndian 2 m.length ++ m ++ z ∧
        paddedLen (UInt64.ofNat m.length) = .ok size ∧ m.length + z.length = size.toNat ∧
        ∀ b ∈ z, b = 0) ∧
    (1 ≤ m.length ∧ m.length ≤ 65535 → ∃ y, pad m = .ok y ∧ unpad y = .ok m) ∧
    (unpad x = .ok m → ∃ y, pad m = .ok y ∧ y.take (2 + m.length) = x.take (2 + m.length) ∧
      (y = x ↔ ∀ b ∈ x.drop (2 + m.length), b = 0)) := by
  refine ⟨unpad_eq_ok_iff.trans isFrame_iff, ?_, ?_, ?_, pad_of_unpad⟩
  · intro hno
    rcases unpad_eq_ok_or_refuse x with ⟨m', hm'⟩ | hr
    · exact absurd hm' (hno m')
    · exact hr
  · rw [pad_eq_ok_iff]
    exact and_congr_right fun hm => eq_frame_iff hm.2
  · rintro ⟨h₁, h₂⟩
    have hp := pad_of_le h₁ h₂
    exact ⟨_, hp, unpad_of_pad hp⟩

/-- A message padded with ones, which comes back padded with zeros, and a buffer with no room for a
prefix. -/
theorem unpad_inverts_pad_ones :
    let m : Bytes := [104, 105]
    let x : Bytes := Bytes.bigEndian 2 2 ++ m ++ List.replicate 30 1
    (1 ≤ m.length ∧ m.length ≤ 65535) ∧ unpad x = .ok m ∧
      (∃ y, pad m = .ok y ∧ unpad y = .ok m ∧ y.take 4 = x.take 4 ∧ y ≠ x) ∧
      unpad [0] = Attempt.refuse .decryptionFailed := by
  intro m x
  obtain ⟨hunpad, -, -, hinv, hback⟩ := unpad_inverts_pad x m
  have hx : unpad x = .ok m :=
    hunpad.2 ⟨by decide, by decide, List.replicate 30 1, 32, rfl, by decide, by decide⟩
  obtain ⟨y, hy, htake, hiff⟩ := hback hx
  obtain ⟨y', hy', hm⟩ := hinv (by decide)
  obtain rfl := Except.ok.inj (hy.symm.trans hy')
  obtain ⟨-, hrefuse, -⟩ := unpad_inverts_pad [0] m
  exact ⟨by decide, hx, ⟨y, hy, hm, htake, fun he => absurd (hiff.1 he) (by decide)⟩,
    hrefuse (by simp [unpad, unpadBy])⟩

end SealedMessage.Padding
