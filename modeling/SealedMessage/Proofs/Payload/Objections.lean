import Mathlib
import SealedMessage.Proofs.Payload.Canonical
import SealedMessage.Proofs.Payload.Scanned

/-! What can be objected to an encoded payload, in an order. A text is refused for the first
objection that holds, and it carries a payload if none does. -/

namespace SealedMessage

open Text

theorem Text.Base64.filler_mem_encode_iff (b : Bytes) :
    Base64.filler ∈ Base64.encode b ↔ ¬ 3 ∣ b.length := by
  have lt (a : UInt8) := a.toNat_lt
  have hne {n : ℕ} (h : n < 64) : ¬ Base64.filler = Base64.digit n :=
    (Base64.digit_ne_filler h).symm
  fun_induction Base64.encode b with
  | case1 => simp
  | case2 a => simp
  | case3 a b => simp
  | case4 a b c r ih =>
    have := lt a
    have := lt b
    have := lt c
    have hr : 3 ∣ (a :: b :: c :: r).length ↔ 3 ∣ r.length := by
      simp only [List.length_cons]
      omega
    simp only [List.mem_cons, hr, ← ih, hne (show a.toNat / 4 < 64 by omega),
      hne (show a.toNat % 4 * 16 + b.toNat / 16 < 64 by omega),
      hne (show b.toNat % 16 * 4 + c.toNat / 64 < 64 by omega),
      hne (show c.toNat % 64 < 64 by omega), false_or]

namespace Payload

/-- What can be objected to the bytes `t` of a text: the number of the objection, and the refusal
that it leads to. No objection takes into account whether another one holds. -/
inductive IsObjection (t : Bytes) : ℕ → Refusal → Prop
  | marker (h : t.head? = some '#'.toUInt8) : IsObjection t 1 (.badPayload .marker)
  | encodedLength (h : t.length < 132 ∨ 87472 < t.length) :
      IsObjection t 2 (.badPayload .encodedLength)
  | raggedLength (h : ¬ 4 ∣ t.length) : IsObjection t 3 (.badPayload .raggedLength)
  | character (h : ¬ ∃ u v : Bytes, t = u ++ v ∧ (∀ c ∈ u, Base64.IsAlphabet c) ∧
      (v = [] ∨ v = [Base64.filler] ∨ v = [Base64.filler, Base64.filler])) :
      IsObjection t 4 (.badPayload .character)
  | unusedBits (h : Base64.HasUnusedBits t) : IsObjection t 5 (.badPayload .unusedBits)
  | decodedLength (h : t.length = 132 ∧ Base64.filler ∈ t ∨
      t.length = 87472 ∧ Base64.filler ∉ t) : IsObjection t 6 (.badPayload .decodedLength)
  | version (first : UInt8) (rest : Bytes) (h : Base64.decode? t = some (first :: rest))
      (gt : 2 < first) : IsObjection t 7 (.unsupportedVersion first)

/-- None of the first `k` objections holds. -/
def Passes (t : Bytes) (k : ℕ) : Prop := ∀ i r, IsObjection t i r → k < i

variable {t : Bytes} {i k : ℕ} {r r' : Refusal}

theorem passes_zero (t : Bytes) : Passes t 0 := by
  intro i r h
  cases h <;> decide

theorem Passes.succ (h : Passes t k) (hk : ∀ r, ¬ IsObjection t (k + 1) r) : Passes t (k + 1) := by
  intro i r hi
  have hlt := h i r hi
  have hne : i ≠ k + 1 := by
    rintro rfl
    exact hk r hi
  omega

theorem Passes.not_isObjection (h : Passes t 7) : ¬ IsObjection t i r := by
  intro hi
  have hlt := h i r hi
  cases hi <;> omega

theorem IsObjection.eq (h : IsObjection t i r) (h' : IsObjection t i r') : r = r' := by
  cases h with
  | version first rest h _ =>
    cases h' with
    | version first' rest' h' _ =>
      rw [h, Option.some.injEq, List.cons.injEq] at h'
      rw [h'.1]
  | _ =>
    cases h'
    rfl

/-- The objection `r` holds, and none before it. -/
def IsFirst (t : Bytes) (r : Refusal) : Prop :=
  ∃ i, IsObjection t i r ∧ ∀ j r', IsObjection t j r' → i ≤ j

theorem Passes.isFirst (h : Passes t k) (hr : IsObjection t (k + 1) r) : IsFirst t r :=
  ⟨k + 1, hr, h⟩

theorem IsFirst.eq (h : IsFirst t r) (h' : IsFirst t r') : r = r' := by
  obtain ⟨i, hi, hmin⟩ := h
  obtain ⟨j, hj, hmin'⟩ := h'
  obtain rfl : i = j := le_antisymm (hmin j r' hj) (hmin' i r hi)
  exact hi.eq hj

/-- With the scan passed, the texts whose bytes have a bad number are at the ends of the range. -/
theorem decodedLength_iff {d : Bytes} (h : minEncoded ≤ (Base64.encode d).length)
    (h' : (Base64.encode d).length ≤ maxEncoded) :
    (d.length < minDecoded ∨ maxDecoded < d.length) ↔
      (Base64.encode d).length = 132 ∧ Base64.filler ∈ Base64.encode d ∨
        (Base64.encode d).length = 87472 ∧ Base64.filler ∉ Base64.encode d := by
  have hl := Base64.length_encode d
  simp only [minEncoded, maxEncoded] at h h'
  simp only [Base64.filler_mem_encode_iff, minDecoded, maxDecoded]
  omega

/-- The last objection, on the bytes that a text of good length stands for. -/
theorem ofBytes_first {d : Bytes} (hp : Passes t 6) (hd : Base64.decode? t = some d)
    (hl : 65 ≤ d.length) :
    (∃ r, IsFirst t r ∧ ofBytes d = Attempt.refuse r) ∨
      (∀ i r, ¬ IsObjection t i r) ∧ ∃ p, ofBytes d = .ok p := by
  obtain ⟨first, nonce, ciphertext, tag, rfl⟩ := exists_fieldBytes hl
  rw [ofBytes_fieldBytes]
  by_cases hv : 2 < first
  · left
    exact ⟨_, hp.isFirst (.version first _ hd hv), by rw [Version.ofByte_of_gt hv]; rfl⟩
  · right
    obtain ⟨v, rfl⟩ := Version.exists_toByte (UInt8.not_lt.1 hv)
    have hp' : Passes t 7 := hp.succ fun _ hr => by
      cases hr with
      | version first rest h gt =>
        obtain ⟨rfl, -⟩ := List.cons.inj (Option.some.inj (h.symm.trans hd))
        exact hv gt
    exact ⟨fun i r => hp'.not_isObjection, _, by rw [Version.ofByte_toByte]; rfl⟩

/-- The objections to what the scan accepts. -/
theorem ofEncoded_first_of_scan (hp : Passes t 4) (hm : t.head? ≠ some marker.toUInt8)
    (hs : scan t = .ok ()) :
    (∃ r, IsFirst t r ∧ ofEncoded t = Attempt.refuse r) ∨
      (∀ i r, ¬ IsObjection t i r) ∧ ∃ p, ofEncoded t = .ok p := by
  obtain ⟨⟨hmin, hmax⟩, h4, hc⟩ := scan_eq_ok_iff.1 hs
  by_cases hu : Base64.HasUnusedBits t
  · have hd := (decode?_eq_none_iff h4 hc).2 hu
    exact .inl ⟨_, hp.isFirst (.unusedBits hu), ofEncoded_of_decode?_eq_none hm hs hd⟩
  have hp₅ : Passes t 5 := hp.succ fun _ hr => by
    cases hr with
    | unusedBits h => exact hu h
  obtain ⟨d, hd⟩ := Option.ne_none_iff_exists'.1 (mt (decode?_eq_none_iff h4 hc).1 hu)
  have ht := Base64.decode?_eq_some_iff.1 hd
  have hbad := decodedLength_iff (d := d) (by rwa [← ht]) (by rwa [← ht])
  rw [← ht] at hbad
  rw [ofEncoded_of_decode?_eq_some hm hs hd]
  by_cases hl : d.length < minDecoded ∨ maxDecoded < d.length
  · exact .inl ⟨_, hp₅.isFirst (.decodedLength (hbad.1 hl)), if_pos hl⟩
  have hp₆ : Passes t 6 := hp₅.succ fun _ hr => by
    cases hr with
    | decodedLength h => exact hl (hbad.2 h)
  rw [if_neg hl]
  refine ofBytes_first hp₆ hd ?_
  simp only [minDecoded] at hl
  omega

/-- The checks find the first objection, and a payload where there is none. -/
theorem ofEncoded_first (t : Bytes) :
    (∃ r, IsFirst t r ∧ ofEncoded t = Attempt.refuse r) ∨
      (∀ i r, ¬ IsObjection t i r) ∧ ∃ p, ofEncoded t = .ok p := by
  have hp₀ := passes_zero t
  by_cases hm : t.head? = some marker.toUInt8
  · exact .inl ⟨_, hp₀.isFirst (.marker hm), by rw [ofEncoded, if_pos hm]; rfl⟩
  have hp₁ : Passes t 1 := hp₀.succ fun _ hr => by
    cases hr with
    | marker h => exact hm h
  by_cases hl : ¬ (minEncoded ≤ t.length ∧ t.length ≤ maxEncoded)
  · have hout : t.length < minEncoded ∨ maxEncoded < t.length := by omega
    exact .inl ⟨_, hp₁.isFirst (.encodedLength hout),
      ofEncoded_of_scan_eq_error hm (scan_of_length hl)⟩
  rw [not_not] at hl
  have hp₂ : Passes t 2 := hp₁.succ fun _ hr => by
    cases hr with
    | encodedLength h => exact absurd hl (by simp only [minEncoded, maxEncoded]; omega)
  by_cases h4 : ¬ 4 ∣ t.length
  · exact .inl ⟨_, hp₂.isFirst (.raggedLength h4),
      ofEncoded_of_scan_eq_error hm (scan_of_not_dvd hl h4)⟩
  rw [not_not] at h4
  have hp₃ : Passes t 3 := hp₂.succ fun _ hr => by
    cases hr with
    | raggedLength h => exact h h4
  by_cases hc : IsScanned t
  · have hp₄ : Passes t 4 := hp₃.succ fun _ hr => by
      cases hr with
      | character h => exact h (isScanned_iff.1 hc)
    exact ofEncoded_first_of_scan hp₄ hm (scan_eq_ok_iff.2 ⟨hl, h4, hc⟩)
  · exact .inl ⟨_, hp₃.isFirst (.character (mt isScanned_iff.2 hc)),
      ofEncoded_of_scan_eq_error hm ((scan_eq_character_iff hl h4).2 hc)⟩

theorem decode_eq_refuse_iff {s : String} :
    decode s = Attempt.refuse r ↔ IsFirst (utf8 (trim s)) r := by
  rw [decode]
  rcases ofEncoded_first (utf8 (trim s)) with ⟨r', hr', he⟩ | ⟨hno, p, hp⟩
  · rw [he]
    constructor
    · intro h
      cases h
      exact hr'
    · intro h
      rw [h.eq hr']
  · rw [hp]
    refine iff_of_false (Ne.symm (by simp)) ?_
    rintro ⟨i, hi, -⟩
    exact hno i r hi

theorem exists_decode_iff {s : String} :
    (∃ p, decode s = .ok p) ↔ ∀ i r, ¬ IsObjection (utf8 (trim s)) i r := by
  rw [decode]
  rcases ofEncoded_first (utf8 (trim s)) with ⟨r, ⟨i, hi, -⟩, he⟩ | ⟨hno, hp⟩
  · rw [he]
    exact iff_of_false (by simp) (fun hno => hno i r hi)
  · exact iff_of_true hp hno

/-- A text is refused for the first objection that holds, in its words, and carries a payload where
there is none. Behind the scan, unused bits alone keep base64 from being read, and three numbers of
bytes alone are bad. -/
theorem decode_refuses_first_objection (s : String) :
    (∀ r : Refusal, decode s = Attempt.refuse r ↔
      ∃ i, IsObjection (utf8 (trim s)) i r ∧
        ∀ j r', IsObjection (utf8 (trim s)) j r' → i ≤ j) ∧
    ((∃ p, decode s = .ok p) ↔ ∀ i r, ¬ IsObjection (utf8 (trim s)) i r) ∧
    (∀ p, decode s = .ok p → Base64.decode? (utf8 (trim s)) = some p.toBytes) ∧
    (∀ e : Bytes, scan e = .ok () → (Base64.decode? e = none ↔ Base64.HasUnusedBits e)) ∧
    (∀ e d : Bytes, scan e = .ok () → Base64.decode? e = some d →
      (d.length < 99 ∨ 65603 < d.length ↔
        d.length = 97 ∨ d.length = 98 ∨ d.length = 65604)) ∧
    [PayloadDefect.marker, .encodedLength, .raggedLength, .character, .unusedBits,
        .decodedLength].map PayloadDefect.message =
      ["unsupported encoding marker", "encoded length out of range",
        "encoded length not a multiple of 4", "invalid base64 character",
        "base64 decoding failed", "decoded length out of range"] := by
  refine ⟨fun r => decode_eq_refuse_iff, exists_decode_iff, ?_, ?_, ?_, rfl⟩
  · intro p hp
    rw [Base64.decode?_eq_some_iff]
    exact (ofEncoded_eq_ok_iff.1 hp).2.2
  · intro e he
    obtain ⟨-, h4, hc⟩ := scan_eq_ok_iff.1 he
    exact decode?_eq_none_iff h4 hc
  · intro e d he hd
    obtain ⟨⟨hmin, hmax⟩, -, -⟩ := scan_eq_ok_iff.1 he
    have hl := Base64.length_encode d
    rw [← Base64.decode?_eq_some_iff.1 hd] at hl
    simp only [minEncoded, maxEncoded] at hmin hmax
    omega

/-- A text that is in some other encoding and too short, which is refused for the first; a text of
whole groups in which one unused bit is set; a text of the least size with a filler; and a text to
which there is no objection. -/
theorem decode_refuses_first_objection_four :
    let e : Bytes := List.replicate 130 65 ++ [66, Base64.filler]
    let d : Bytes := List.replicate 98 0
    let p : Payload := ⟨.v1, .zeros 32, List.replicate 34 0, .zeros 32⟩
    decode "#" = Attempt.refuse (.badPayload .marker) ∧
      IsObjection (utf8 (trim "#")) 2 (.badPayload .encodedLength) ∧
      (scan e = .ok () ∧ Base64.decode? e = none) ∧
      scan (Base64.encode d) = .ok () ∧ Base64.decode? (Base64.encode d) = some d ∧
      (d.length < 99 ∨ 65603 < d.length) ∧
      decode (Base64.text p.toBytes) = .ok p ∧
      Base64.decode? (utf8 (trim (Base64.text p.toBytes))) = some p.toBytes := by
  intro e d p
  obtain ⟨hfirst, -, -, hunused, hlength, -⟩ := decode_refuses_first_objection "#"
  have ht : utf8 (trim "#") = [35] := by rfl
  rw [ht] at hfirst ⊢
  have he : scan e = .ok () := by decide +kernel
  have hd : scan (Base64.encode d) = .ok () := by decide +kernel
  have hdec := Base64.decode?_encode d
  have hl : p.ciphertext.length = 34 := List.length_replicate
  have hp := decode_text_toBytes p hl.ge (hl.le.trans (by decide))
  obtain ⟨-, -, hbytes, -⟩ := decode_refuses_first_objection (Base64.text p.toBytes)
  refine ⟨(hfirst _).2 ⟨1, .marker rfl, fun j r' h => passes_zero _ j r' h⟩,
    .encodedLength (by decide), ⟨he, (hunused e he).2 ?_⟩, hd, hdec,
    (hlength _ d hd hdec).2 (.inr (.inl List.length_replicate)), hp, hbytes p hp⟩
  exact ⟨66, 1, rfl, .inl ⟨⟨List.replicate 130 65, rfl⟩, by decide⟩⟩

end Payload

end SealedMessage
