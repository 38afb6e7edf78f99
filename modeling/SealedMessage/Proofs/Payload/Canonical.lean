import Mathlib
import SealedMessage.Proofs.Payload.Fields
import SealedMessage.Proofs.Text.Ascii

/-! The text of a payload is canonical: up to blanks at its ends, `decode` accepts the base64 of the
payload's bytes and no other text. -/

namespace SealedMessage.Payload

open Text

theorem scanFrom_digit {n : ℕ} (h : n < 64) (r : Bytes) :
    scanFrom .digits (Base64.digit n :: r) = scanFrom .digits r := by
  have hd : Base64.isDigit (Base64.digit n) = true := by
    rw [Base64.isDigit, Base64.value?_digit h]
    rfl
  rw [scanFrom, ScanState.next?, if_pos hd]

/-- The scan never stops on canonical base64: fillers stand only at the end, and at most two. -/
theorem scanFrom_encode (d : Bytes) : scanFrom .digits (Base64.encode d) = true := by
  have lt (a : UInt8) := a.toNat_lt
  fun_induction Base64.encode d with
  | case1 => rfl
  | case2 a =>
    have := lt a
    rw [scanFrom_digit (by omega), scanFrom_digit (by omega)]
    decide
  | case3 a b =>
    have := lt a
    have := lt b
    rw [scanFrom_digit (by omega), scanFrom_digit (by omega), scanFrom_digit (by omega)]
    decide
  | case4 a b c r ih =>
    have := lt a
    have := lt b
    have := lt c
    rw [scanFrom_digit (by omega), scanFrom_digit (by omega), scanFrom_digit (by omega),
      scanFrom_digit (by omega)]
    exact ih

/-- The scan of canonical base64 looks at nothing but the number of bytes. -/
theorem scan_encode (d : Bytes) :
    scan (Base64.encode d) =
      if d.length < 97 ∨ 65604 < d.length then .error (.badPayload .encodedLength) else .ok () := by
  have hl := Base64.length_encode d
  have hiff : ((Base64.encode d).length < minEncoded ∨ maxEncoded < (Base64.encode d).length) ↔
      (d.length < 97 ∨ 65604 < d.length) := by
    simp only [minEncoded, maxEncoded]
    omega
  have h4 : ¬ (Base64.encode d).length % 4 ≠ 0 := by omega
  rw [scan, if_neg h4, if_pos (scanFrom_encode d)]
  simp only [hiff]

theorem head?_encode_ne_marker (d : Bytes) : (Base64.encode d).head? ≠ some marker.toUInt8 := by
  intro h
  have hm := List.mem_of_mem_head? h
  exact Base64.forall_mem_encode (P := fun x => x ≠ marker.toUInt8) (by decide) (by decide) d _ hm
    rfl

section Checks

variable {e : Bytes} (hm : e.head? ≠ some marker.toUInt8)

include hm

theorem ofEncoded_of_scan_eq_error {r : Refusal} (hs : scan e = .error r) :
    ofEncoded e = Attempt.refuse r := by
  rw [ofEncoded, if_neg hm, hs]
  rfl

theorem ofEncoded_of_decode?_eq_none (hs : scan e = .ok ()) (hd : Base64.decode? e = none) :
    ofEncoded e = Attempt.refuse (.badPayload .unusedBits) := by
  rw [ofEncoded, if_neg hm, hs, hd]
  rfl

theorem ofEncoded_of_decode?_eq_some {d : Bytes} (hs : scan e = .ok ())
    (hd : Base64.decode? e = some d) :
    ofEncoded e =
      if d.length < minDecoded ∨ maxDecoded < d.length then
        Attempt.refuse (.badPayload .decodedLength)
      else ofBytes d := by
  rw [ofEncoded, if_neg hm, hs, hd]
  rfl

end Checks

/-- The encoded bounds leave room for every length that the decoded bounds admit, and for three
more. -/
theorem ofEncoded_encode (d : Bytes) :
    ofEncoded (Base64.encode d) =
      if d.length < 97 ∨ 65604 < d.length then Attempt.refuse (.badPayload .encodedLength)
      else if d.length < minDecoded ∨ maxDecoded < d.length then
        Attempt.refuse (.badPayload .decodedLength)
      else ofBytes d := by
  have hm := head?_encode_ne_marker d
  have hs := scan_encode d
  by_cases h : d.length < 97 ∨ 65604 < d.length
  · rw [if_pos h] at hs ⊢
    exact ofEncoded_of_scan_eq_error hm hs
  · rw [if_neg h] at hs ⊢
    exact ofEncoded_of_decode?_eq_some hm hs (Base64.decode?_encode d)

/-- On canonical base64 of an admissible length every check passes, down to the fields. -/
theorem ofEncoded_encode_of_le {d : Bytes} (h₁ : minDecoded ≤ d.length)
    (h₂ : d.length ≤ maxDecoded) : ofEncoded (Base64.encode d) = ofBytes d := by
  simp only [minDecoded, maxDecoded] at h₁ h₂
  rw [ofEncoded_encode, if_neg (by omega), if_neg (by simp only [minDecoded, maxDecoded]; omega)]

theorem scan_eq_error {e : Bytes} {r : Refusal} (h : scan e = .error r) : r.IsStructural := by
  unfold scan at h
  split_ifs at h
  all_goals cases h
  all_goals exact .payload _

/-- Every way through the checks: a refusal that needs no key, or the base64 of a byte string of an
admissible length, on which the fields decide. -/
theorem ofEncoded_cases (e : Bytes) :
    (∃ r : Refusal, r.IsStructural ∧ ofEncoded e = Attempt.refuse r) ∨
      ∃ d, e = Base64.encode d ∧ minDecoded ≤ d.length ∧ d.length ≤ maxDecoded ∧
        ofEncoded e = ofBytes d := by
  by_cases hm : e.head? = some marker.toUInt8
  · exact .inl ⟨_, .payload .marker, by rw [ofEncoded, if_pos hm]; rfl⟩
  cases hs : scan e with
  | error r => exact .inl ⟨r, scan_eq_error hs, ofEncoded_of_scan_eq_error hm hs⟩
  | ok _ =>
    cases hd : Base64.decode? e with
    | none => exact .inl ⟨_, .payload .unusedBits, ofEncoded_of_decode?_eq_none hm hs hd⟩
    | some d =>
      rw [ofEncoded_of_decode?_eq_some hm hs hd]
      by_cases hl : d.length < minDecoded ∨ maxDecoded < d.length
      · exact .inl ⟨_, .payload .decodedLength, if_pos hl⟩
      · exact .inr ⟨d, Base64.decode?_eq_some_iff.1 hd, by omega, by omega, if_neg hl⟩

theorem ofEncoded_eq_ok {e : Bytes} {p : Payload} (h : ofEncoded e = .ok p) :
    ∃ d, e = Base64.encode d ∧ minDecoded ≤ d.length ∧ d.length ≤ maxDecoded ∧
      ofBytes d = .ok p := by
  rcases ofEncoded_cases e with ⟨r, -, hr⟩ | ⟨d, he, h₁, h₂, hd⟩
  · rw [hr] at h
    cases h
  · exact ⟨d, he, h₁, h₂, hd.symm.trans h⟩

theorem ofEncoded_eq_ok_iff {e : Bytes} {p : Payload} :
    ofEncoded e = .ok p ↔
      34 ≤ p.ciphertext.length ∧ p.ciphertext.length ≤ 65538 ∧ e = Base64.encode p.toBytes := by
  have hp := length_toBytes p
  constructor
  · intro h
    obtain ⟨d, rfl, h₁, h₂, hd⟩ := ofEncoded_eq_ok h
    simp only [minDecoded, maxDecoded] at h₁ h₂
    obtain rfl := (ofBytes_eq_ok_iff (by omega)).1 hd
    exact ⟨by omega, by omega, rfl⟩
  · rintro ⟨h₁, h₂, rfl⟩
    rw [ofEncoded_encode_of_le (by simp only [minDecoded]; omega)
      (by simp only [maxDecoded]; omega), ofBytes_toBytes]

theorem decode_eq_ok_iff {s : String} {p : Payload} :
    decode s = .ok p ↔
      34 ≤ p.ciphertext.length ∧ p.ciphertext.length ≤ 65538 ∧ trim s = Base64.text p.toBytes := by
  rw [decode, ofEncoded_eq_ok_iff, Base64.utf8_eq_encode_iff]

/-- The bytes that an accepted text stands for. -/
theorem decode?_of_decode {s : String} {p : Payload} (h : decode s = .ok p) :
    Base64.decode? (utf8 (trim s)) = some p.toBytes := by
  rw [(decode_eq_ok_iff.1 h).2.2, Base64.decode?_utf8_text]

theorem decode_text_toBytes (p : Payload) (h₁ : 34 ≤ p.ciphertext.length)
    (h₂ : p.ciphertext.length ≤ 65538) : decode (Base64.text p.toBytes) = .ok p :=
  decode_eq_ok_iff.2 ⟨h₁, h₂, Base64.trim_text _⟩

/-- A text that carries no payload is refused for what it is. -/
theorem decode_eq_ok_or_refuse (s : String) :
    (∃ p, decode s = .ok p) ∨ ∃ r : Refusal, r.IsStructural ∧ decode s = Attempt.refuse r := by
  unfold decode
  rcases ofEncoded_cases (utf8 (trim s)) with hr | ⟨d, -, h₁, -, hd⟩
  · exact .inr hr
  · simp only [minDecoded] at h₁
    rw [hd]
    exact ofBytes_eq_ok_or_refuse (by omega)

theorem decode_text_eq (d : Bytes) : decode (Base64.text d) = ofEncoded (Base64.encode d) := by
  rw [decode, Base64.trim_text, Base64.utf8_text]

/-- The canonical text of an admissible length stands for its bytes. -/
theorem decode_text {d : Bytes} (h₁ : minDecoded ≤ d.length) (h₂ : d.length ≤ maxDecoded) :
    decode (Base64.text d) = ofBytes d := by
  rw [decode_text_eq, ofEncoded_encode_of_le h₁ h₂]

theorem decode_trim (s : String) : decode (trim s) = decode s := by
  rw [decode, decode, trim_trim]

theorem trim_append_text {w₁ w₂ : String} (d : Bytes) (h₁ : ∀ c ∈ w₁.toList, isBlank c = true)
    (h₂ : ∀ c ∈ w₂.toList, isBlank c = true) :
    trim (w₁ ++ Base64.text d ++ w₂) = Base64.text d := by
  rw [trim_append _ h₁ h₂, Base64.trim_text]

/-- The accepted spellings of a payload are the blanks around its one canonical text, and blanks
around a text change no answer, refusals included. -/
theorem decode_canonical (s : String) (p : Payload) :
    (decode s = .ok p ↔
      34 ≤ p.ciphertext.length ∧ p.ciphertext.length ≤ 65538 ∧
        trim s = Base64.text
          (p.version.toByte :: (p.nonce.toList ++ p.ciphertext ++ p.tag.toList))) ∧
    (∀ t : String, decode s = .ok p → decode t = .ok p → trim s = trim t) ∧
    decode s = decode (trim s) := by
  refine ⟨decode_eq_ok_iff, ?_, (decode_trim s).symm⟩
  intro t hs ht
  rw [(decode_eq_ok_iff.1 hs).2.2, (decode_eq_ok_iff.1 ht).2.2]

/-- A legacy payload of the least size, once bare and once between an ideographic space and a line
break. -/
theorem decode_canonical_blanks :
    let p : Payload := ⟨.v0, .zeros 32, List.replicate 34 0, .zeros 32⟩
    let t := Base64.text p.toBytes
    let s := "\u3000" ++ t ++ "\n"
    decode s = .ok p ∧ decode t = .ok p ∧ trim s = trim t := by
  intro p t s
  have hl : p.ciphertext.length = 34 := List.length_replicate
  have hs : decode s = .ok p :=
    (decode_canonical s p).1.2 ⟨by omega, by omega,
      trim_append_text _ (by simp [isBlank]) (by simp [isBlank])⟩
  have ht : decode t = .ok p := (decode_canonical t p).1.2 ⟨by omega, by omega, Base64.trim_text _⟩
  exact ⟨hs, ht, (decode_canonical s p).2.1 t hs ht⟩

end SealedMessage.Payload
