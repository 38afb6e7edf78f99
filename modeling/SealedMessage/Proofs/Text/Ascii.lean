import Mathlib
import SealedMessage.Text.Base64.Canonical
import SealedMessage.Proofs.Text.Trim

/-! A text is given by its bytes, ASCII bytes are the bytes of a text, and the text of a byte string
in base64 has no blanks. -/

namespace SealedMessage.Text

theorem toByteArray_utf8 (s : String) : (utf8 s).toByteArray = s.toByteArray := by
  conv_rhs => rw [← String.ofList_toList (s := s), String.toByteArray_ofList]
  rfl

theorem utf8_injective : Function.Injective utf8 := by
  intro s t h
  rw [← String.toByteArray_inj, ← toByteArray_utf8, ← toByteArray_utf8, h]

theorem length_utf8 (s : String) : (utf8 s).length = s.utf8ByteSize := by
  rw [← List.size_toByteArray, toByteArray_utf8, String.size_toByteArray]

theorem toNat_ofNat_of_lt {x : UInt8} (h : x < 128) : (Char.ofNat x.toNat).val = x.toUInt32 := by
  have hx : x.toNat < 128 := UInt8.lt_iff_toNat_lt.1 h
  have hv : x.toNat.isValidChar := .inl (by omega)
  rw [Char.ofNat, dif_pos hv]
  apply UInt32.toNat_inj.1
  rfl

theorem utf8EncodeChar_ofNat {x : UInt8} (h : x < 128) :
    String.utf8EncodeChar (Char.ofNat x.toNat) = [x] := by
  have hv := toNat_ofNat_of_lt h
  have hs : (Char.ofNat x.toNat).utf8Size = 1 := by
    rw [Char.utf8Size_eq_one_iff, hv, UInt32.le_iff_toNat_le]
    exact Nat.le_of_lt_succ (UInt8.lt_iff_toNat_lt.1 h)
  rw [String.utf8EncodeChar_eq_singleton hs, hv, UInt8.toUInt8_toUInt32]

theorem utf8_ofAscii {b : Bytes} (h : ∀ x ∈ b, x < 128) : utf8 (ofAscii b) = b := by
  rw [utf8, ofAscii, String.toList_ofList]
  induction b with
  | nil => rfl
  | cons x b ih =>
    rw [List.forall_mem_cons] at h
    rw [List.map_cons, List.flatMap_cons, utf8EncodeChar_ofNat h.1, ih h.2]
    rfl

namespace Base64

/-- What holds of the filler and of every digit holds of every character. -/
theorem forall_mem_encode {P : UInt8 → Prop} (hf : P filler) (hd : ∀ n < 64, P (digit n))
    (b : Bytes) : ∀ x ∈ encode b, P x := by
  have lt (a : UInt8) := a.toNat_lt
  fun_induction encode b with
  | case1 => simp
  | case2 a =>
    have := lt a
    simp only [List.forall_mem_cons]
    exact ⟨hd _ (by omega), hd _ (by omega), hf, hf, by simp⟩
  | case3 a b =>
    have := lt a
    have := lt b
    simp only [List.forall_mem_cons]
    exact ⟨hd _ (by omega), hd _ (by omega), hd _ (by omega), hf, by simp⟩
  | case4 a b c r ih =>
    have := lt a
    have := lt b
    have := lt c
    simp only [List.forall_mem_cons]
    exact ⟨hd _ (by omega), hd _ (by omega), hd _ (by omega), hd _ (by omega), ih⟩

theorem lt_of_mem_encode (b : Bytes) : ∀ x ∈ encode b, x < 128 :=
  forall_mem_encode (by decide) (by decide) b

@[simp] theorem utf8_text (b : Bytes) : utf8 (text b) = encode b :=
  utf8_ofAscii (lt_of_mem_encode b)

theorem utf8_eq_encode_iff {s : String} {b : Bytes} : utf8 s = encode b ↔ s = text b := by
  rw [← utf8_text, utf8_injective.eq_iff]

@[simp] theorem decode?_utf8_text (b : Bytes) : decode? (utf8 (text b)) = some b := by
  rw [utf8_text, decode?_encode]

theorem text_injective : Function.Injective text := by
  intro a b h
  exact Option.some.inj (by rw [← decode?_utf8_text a, h, decode?_utf8_text])

theorem utf8ByteSize_text (b : Bytes) : (text b).utf8ByteSize = 4 * ((b.length + 2) / 3) := by
  rw [← length_utf8, utf8_text, length_encode]

/-- The same, as the number of groups that `b` begins. -/
theorem utf8ByteSize_text_eq_ceilDiv (b : Bytes) :
    (text b).utf8ByteSize = 4 * (b.length ⌈/⌉ 3) := by
  rw [utf8ByteSize_text, Nat.ceilDiv_eq_add_pred_div, Nat.add_sub_assoc (by decide : 1 ≤ 3)]

theorem isBlank_of_mem_text (b : Bytes) : ∀ c ∈ (text b).toList, isBlank c = false := by
  intro c hc
  rw [text, ofAscii, String.toList_ofList, List.mem_map] at hc
  obtain ⟨x, hx, rfl⟩ := hc
  exact forall_mem_encode (P := fun x => isBlank (Char.ofNat x.toNat) = false) (by decide)
    (by decide) b x hx

theorem trim_text (b : Bytes) : trim (text b) = text b := trim_eq_self (isBlank_of_mem_text b)

end Base64

end SealedMessage.Text
