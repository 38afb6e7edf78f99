import Mathlib
import SealedMessage.Bytes.Digits
import SealedMessage.Padding.Frame
import SealedMessage.Proofs.Padding.Bucket

/-! `pad` writes the one frame of a message whose padding is zeros, and `unpad` reads exactly the
frames, whatever their padding. Neither has a fault. -/

namespace SealedMessage.Padding

/-- The frame of `m` with zeros as padding. -/
def frame (m : Bytes) : Bytes :=
  Bytes.bigEndian lengthSize m.length ++ m ++ List.replicate (bucketLen m.length - m.length) 0

theorem length_frame (m : Bytes) : (frame m).length = 2 + bucketLen m.length := by
  have h := le_bucketLen m.length
  simp only [frame, List.length_append, Bytes.length_bigEndian, List.length_replicate, lengthSize]
  omega

theorem isFrame_frame {m : Bytes} (h₁ : 1 ≤ m.length) (h₂ : m.length ≤ 65535) :
    IsFrame (frame m) m := by
  refine ⟨h₁, h₂, _, rfl, ?_⟩
  have h := le_bucketLen m.length
  rw [List.length_replicate]
  omega

theorem IsFrame.length_eq {x m : Bytes} (h : IsFrame x m) : x.length = 2 + bucketLen m.length := by
  obtain ⟨-, -, z, rfl, hz⟩ := h
  simp only [List.length_append, Bytes.length_bigEndian, lengthSize]
  omega

theorem length_head (m : Bytes) :
    (Bytes.bigEndian lengthSize m.length ++ m).length = 2 + m.length := by
  rw [List.length_append, Bytes.length_bigEndian, lengthSize]

theorem IsFrame.take_eq {x m : Bytes} (h : IsFrame x m) :
    x.take (2 + m.length) = Bytes.bigEndian lengthSize m.length ++ m := by
  obtain ⟨-, -, z, rfl, -⟩ := h
  exact List.take_left' (length_head m)

/-- The padding of `frame` is the one that is all zeros. -/
theorem append_eq_frame_iff {m z : Bytes} (hz : m.length + z.length = bucketLen m.length) :
    Bytes.bigEndian lengthSize m.length ++ m ++ z = frame m ↔ ∀ b ∈ z, b = 0 := by
  have hzeros : bucketLen m.length - m.length = z.length := by omega
  rw [frame, List.append_cancel_left_eq, hzeros, List.eq_replicate_iff, and_iff_right rfl]

/-- Frames of one message differ only in their padding. -/
theorem IsFrame.eq_frame_iff {x m : Bytes} (h : IsFrame x m) :
    x = frame m ↔ ∀ b ∈ x.drop (2 + m.length), b = 0 := by
  obtain ⟨-, -, z, rfl, hz⟩ := h
  rw [append_eq_frame_iff hz, List.drop_left' (length_head m)]

theorem toNat_ofNat_of_le {n : ℕ} (h : n ≤ 65535) : (UInt64.ofNat n).toNat = n :=
  UInt64.toNat_ofNat_of_lt' (h.trans_lt (by decide))

/-- What `paddedLen` gives for a length that fits a word. -/
theorem exists_paddedLen {n : ℕ} (h : n ≤ 65535) :
    ∃ size, paddedLen (UInt64.ofNat n) = .ok size ∧ size.toNat = bucketLen n := by
  have hn := toNat_ofNat_of_le h
  obtain ⟨size, hs, vs⟩ := paddedLen_eq (n := UInt64.ofNat n) (by omega)
  exact ⟨size, hs, by rw [vs, hn]⟩

/-- A frame, with the size of its body as `paddedLen` gives it. -/
theorem isFrame_iff {x m : Bytes} :
    IsFrame x m ↔ 1 ≤ m.length ∧ m.length ≤ 65535 ∧
      ∃ (z : Bytes) (size : Word), x = Bytes.bigEndian 2 m.length ++ m ++ z ∧
        paddedLen (UInt64.ofNat m.length) = .ok size ∧ m.length + z.length = size.toNat := by
  refine and_congr_right fun _ => and_congr_right fun h₂ => exists_congr fun z => ?_
  obtain ⟨size, hs, vs⟩ := exists_paddedLen h₂
  constructor
  · rintro ⟨hx, hz⟩
    exact ⟨size, hx, hs, by rw [hz, vs]⟩
  · rintro ⟨size', hx, hs', hz⟩
    obtain rfl := Except.ok.inj (hs.symm.trans hs')
    exact ⟨hx, by rw [hz, vs]⟩

theorem checkLength_of_le {n : ℕ} (h₁ : 1 ≤ n) (h₂ : n ≤ 65535) : checkLength n = .ok () := by
  rw [checkLength, if_pos ⟨h₁, h₂⟩]

theorem checkLength_of_not {n : ℕ} (h : ¬ (1 ≤ n ∧ n ≤ 65535)) :
    checkLength n = .error (.plaintextLength n) :=
  if_neg h

theorem overwrite_zeros (p x : Bytes) {k : ℕ} (h : x.length ≤ k) :
    Bytes.overwrite (p ++ List.replicate k 0) p.length x =
      .ok (p ++ x ++ List.replicate (k - x.length) 0) := by
  rw [Bytes.overwrite_of_le (by rw [List.length_append, List.length_replicate]; omega),
    List.take_left, List.drop_append, List.drop_of_length_le (by omega), List.nil_append,
    List.drop_replicate, Nat.add_sub_cancel_left]

theorem pad_of_le {m : Bytes} (h₁ : 1 ≤ m.length) (h₂ : m.length ≤ 65535) :
    pad m = .ok (frame m) := by
  obtain ⟨size, hs, vs⟩ := exists_paddedLen h₂
  have hle := le_bucketLen m.length
  have hmax := bucketLen_le h₂
  have two : (UInt64.ofNat lengthSize).toNat = 2 := rfl
  have hsize : UInt64.size = 2 ^ 64 := rfl
  obtain ⟨total, ht, vt⟩ := Word.add_of_lt (a := UInt64.ofNat lengthSize) (b := size) (by omega)
  have hr : total.toNat = 2 + bucketLen m.length := by omega
  -- the prefix goes over the first zeros, then the message over those behind the prefix
  have hhead := overwrite_zeros [] (Bytes.bigEndian lengthSize m.length)
    (k := 2 + bucketLen m.length) (by simp [lengthSize])
  have hbody := overwrite_zeros (Bytes.bigEndian lengthSize m.length) m hle
  simp only [List.length_nil, List.nil_append, Bytes.length_bigEndian, lengthSize,
    Nat.add_sub_cancel_left] at hhead hbody
  rw [pad, padBy, checkLength_of_le h₁ h₂, hs, Attempt.liftM_refusal_ok, ok_bind,
    Attempt.liftM_checked_ok, ok_bind, ht, Attempt.liftM_checked_ok, ok_bind, hr]
  dsimp only [lengthSize]
  rw [hhead, Attempt.liftM_checked_ok, ok_bind, hbody, Attempt.liftM_checked_ok]
  rfl

theorem pad_of_not {m : Bytes} (h : ¬ (1 ≤ m.length ∧ m.length ≤ 65535)) :
    pad m = Attempt.refuse (.plaintextLength m.length) := by
  rw [pad, padBy, checkLength_of_not h, Attempt.liftM_refusal_error, Attempt.refuse_bind]

theorem toNat_prefix_lt (hi lo : UInt8) : Bytes.toNat [hi, lo] < 65536 := by
  simpa using Bytes.toNat_lt [hi, lo]

/-- The whole of `unpad` on a buffer with a prefix, without words. -/
theorem unpad_cons_cons (hi lo : UInt8) (body : Bytes) :
    unpad (hi :: lo :: body) =
      if 1 ≤ Bytes.toNat [hi, lo] ∧ body.length = bucketLen (Bytes.toNat [hi, lo]) then
        .ok (body.take (Bytes.toNat [hi, lo]))
      else Attempt.refuse .decryptionFailed := by
  have hlt := toNat_prefix_lt hi lo
  rw [unpad, unpadBy]
  generalize Bytes.toNat [hi, lo] = n at hlt ⊢
  obtain ⟨size, hs, vs⟩ := exists_paddedLen (n := n) (by omega)
  have hle := le_bucketLen n
  by_cases hn : n < minPlaintext
  · rw [if_pos hn, if_neg (by rintro ⟨h, -⟩; exact absurd hn (not_lt.2 h))]
  · rw [if_neg hn, hs, Attempt.liftM_checked_ok, ok_bind, vs]
    by_cases hb : body.length = bucketLen n
    · rw [if_neg (not_not.2 hb), if_pos ⟨not_lt.1 hn, hb⟩,
        Bytes.slice_of_le (Nat.zero_le n) (by omega)]
      rfl
    · rw [if_pos hb, if_neg (fun h => hb h.2)]

theorem bigEndian_two {n : ℕ} (h : n < 65536) :
    ∃ hi lo : UInt8, Bytes.bigEndian lengthSize n = [hi, lo] ∧ Bytes.toNat [hi, lo] = n := by
  refine ⟨UInt8.ofNat (n / 256), UInt8.ofNat n, rfl, ?_⟩
  have := Bytes.toNat_bigEndian lengthSize n
  rwa [Nat.mod_eq_of_lt (by simpa [lengthSize] using h)] at this

theorem unpad_eq_ok_iff {x m : Bytes} : unpad x = .ok m ↔ IsFrame x m := by
  constructor
  · intro h
    rcases x with _ | ⟨hi, _ | ⟨lo, body⟩⟩
    · exact absurd h (by simp [unpad, unpadBy])
    · exact absurd h (by simp [unpad, unpadBy])
    · have hlt := toNat_prefix_lt hi lo
      have hp := Bytes.bigEndian_toNat [hi, lo]
      rw [unpad_cons_cons] at h
      generalize Bytes.toNat [hi, lo] = n at hlt hp h
      split_ifs at h with hc
      · obtain rfl := Except.ok.inj h
        have hle := le_bucketLen n
        have hlen : (body.take n).length = n := by rw [List.length_take]; omega
        refine ⟨by rw [hlen]; exact hc.1, by rw [hlen]; exact Nat.le_of_lt_succ hlt, body.drop n,
          ?_, ?_⟩
        · rw [hlen, List.append_assoc, List.take_append_drop]
          exact congrArg (· ++ body) hp.symm
        · rw [hlen, List.length_drop]
          omega
      · exact absurd h (by simp)
  · rintro ⟨h₁, h₂, z, rfl, hz⟩
    obtain ⟨hi, lo, hp, hv⟩ := bigEndian_two (n := m.length) (Nat.lt_succ_of_le h₂)
    rw [hp, List.append_assoc, List.cons_append, List.cons_append, List.nil_append,
      unpad_cons_cons, hv, if_pos ⟨h₁, by rw [List.length_append, hz]⟩, List.take_left]

/-- There is no third answer. -/
theorem unpad_eq_ok_or_refuse (x : Bytes) :
    (∃ m, unpad x = .ok m) ∨ unpad x = Attempt.refuse .decryptionFailed := by
  rcases x with _ | ⟨hi, _ | ⟨lo, body⟩⟩
  · exact .inr rfl
  · exact .inr rfl
  · rw [unpad_cons_cons]
    split_ifs
    · exact .inl ⟨_, rfl⟩
    · exact .inr rfl

theorem unpad_frame {m : Bytes} (h₁ : 1 ≤ m.length) (h₂ : m.length ≤ 65535) :
    unpad (frame m) = .ok m :=
  unpad_eq_ok_iff.2 (isFrame_frame h₁ h₂)

end SealedMessage.Padding
