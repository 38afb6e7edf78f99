import Mathlib
import SealedMessage.Proofs.Payload.Canonical

/-! Writing a payload and reading it again. Only the current version is written, and whatever the
length of the ciphertext is; what was written is read again if a message can have that length, and
is refused for one of its two lengths if not. In the other direction, what is read in the current
version is written as it was. -/

namespace SealedMessage.Payload

open Text

variable {p : Payload} {s : String}

theorem encode_of_current (h : p.version = .current) : p.encode = .ok (Base64.text p.toBytes) :=
  if_pos h

theorem encode_of_legacy (h : p.version ≠ .current) :
    p.encode = .error (.unsupportedVersion p.version.toByte) :=
  if_neg h

/-- The bytes in the text of a payload, in groups of four. -/
theorem utf8ByteSize_text_toBytes (p : Payload) :
    (Base64.text p.toBytes).utf8ByteSize = 4 * ((65 + p.ciphertext.length) ⌈/⌉ 3) := by
  rw [Base64.utf8ByteSize_text_eq_ceilDiv, length_toBytes]

/-- Every ciphertext has one of three answers, and its length says which. -/
theorem decode_text_toBytes_eq (p : Payload) :
    decode (Base64.text p.toBytes) =
      if p.ciphertext.length < 32 ∨ 65539 < p.ciphertext.length then
        Attempt.refuse (.badPayload .encodedLength)
      else if p.ciphertext.length < 34 ∨ 65538 < p.ciphertext.length then
        Attempt.refuse (.badPayload .decodedLength)
      else .ok p := by
  have hl := length_toBytes p
  have hout : (p.toBytes.length < 97 ∨ 65604 < p.toBytes.length) ↔
      (p.ciphertext.length < 32 ∨ 65539 < p.ciphertext.length) := by omega
  have hbad : (p.toBytes.length < minDecoded ∨ maxDecoded < p.toBytes.length) ↔
      (p.ciphertext.length < 34 ∨ 65538 < p.ciphertext.length) := by
    simp only [minDecoded, maxDecoded]
    omega
  rw [decode_text_eq, ofEncoded_encode, ofBytes_toBytes]
  simp only [hout, hbad]

/-- No byte of a text in the current version is lost in its payload. -/
theorem encode_of_decode (h : decode s = .ok p) (hv : p.version = .current) :
    p.encode = .ok (trim s) := by
  rw [encode_of_current hv, (decode_eq_ok_iff.1 h).2.2]

/-- On payloads of every length and version. -/
theorem decode_encode_at_every_length (p : Payload) :
    (p.version = .v0 ∨ p.version = .v1 →
      p.encode = .error (.unsupportedVersion p.version.toByte)) ∧
    (p.version = .v2 → ∃ s, p.encode = .ok s ∧
      s.utf8ByteSize = 4 * ((65 + p.ciphertext.length) ⌈/⌉ 3) ∧
      (decode s = .ok p ↔ 34 ≤ p.ciphertext.length ∧ p.ciphertext.length ≤ 65538) ∧
      (decode s = Attempt.refuse (.badPayload .decodedLength) ↔
        p.ciphertext.length = 32 ∨ p.ciphertext.length = 33 ∨ p.ciphertext.length = 65539) ∧
      (decode s = Attempt.refuse (.badPayload .encodedLength) ↔
        p.ciphertext.length < 32 ∨ 65539 < p.ciphertext.length)) ∧
    PayloadDefect.decodedLength.message = "decoded length out of range" ∧
    PayloadDefect.encodedLength.message = "encoded length out of range" ∧
    ∀ (s : String) (q : Payload), decode s = .ok q → q.version = .v2 →
      q.encode = .ok (trim s) := by
  refine ⟨fun h => encode_of_legacy ?_, fun h => ?_, rfl, rfl, fun s q => encode_of_decode⟩
  · rcases h with h | h
    · rw [h]
      decide
    · rw [h]
      decide
  · refine ⟨_, encode_of_current h, utf8ByteSize_text_toBytes p, ?_⟩
    rw [decode_text_toBytes_eq]
    split_ifs with hout hbad
    · exact ⟨iff_of_false (by simp) (by omega), iff_of_false (by simp) (by omega),
        iff_of_true rfl hout⟩
    · exact ⟨iff_of_false (by simp) (by omega), iff_of_true rfl (by omega),
        iff_of_false (by simp) hout⟩
    · exact ⟨iff_of_true rfl (by omega), iff_of_false (Ne.symm (by simp)) (by omega),
        iff_of_false (Ne.symm (by simp)) hout⟩

/-- A ciphertext of 33 bytes, which is written and not read again, an old version, which is not
written, and a text between two blanks, which is written without them. -/
theorem decode_encode_at_every_length_33 :
    let p : Payload := ⟨.v2, .zeros 32, List.replicate 33 0, .zeros 32⟩
    let q : Payload := ⟨.v2, .zeros 32, List.replicate 34 0, .zeros 32⟩
    let s := " " ++ Base64.text q.toBytes ++ "\n"
    (∃ s', p.encode = .ok s' ∧ s'.utf8ByteSize = 132 ∧
      decode s' = Attempt.refuse (.badPayload .decodedLength)) ∧
      { p with version := .v1 }.encode = .error (.unsupportedVersion 1) ∧
      decode s = .ok q ∧ q.encode = .ok (trim s) := by
  intro p q s
  have hp : p.ciphertext.length = 33 := List.length_replicate
  have hq : q.ciphertext.length = 34 := List.length_replicate
  obtain ⟨-, hcurrent, -, -, hback⟩ := decode_encode_at_every_length p
  obtain ⟨hlegacy, -⟩ := decode_encode_at_every_length { p with version := .v1 }
  obtain ⟨s', hs', hsize, -, hbad, -⟩ := hcurrent rfl
  rw [hp] at hsize hbad
  have hs : decode s = .ok q :=
    decode_eq_ok_iff.2 ⟨by omega, by omega,
      trim_append_text _ (by simp [isBlank]) (by simp [isBlank])⟩
  exact ⟨⟨s', hs', hsize, hbad.2 (by decide)⟩, hlegacy (.inr rfl), hs, hback s q hs rfl⟩

end SealedMessage.Payload
