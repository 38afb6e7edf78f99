import Mathlib
import SealedMessage.Proofs.Payload.Canonical
import SealedMessage.Proofs.Payload.Scanned

/-! The language of the scan, and where it stops outside of it. The state is the number of fillers
that were read, and that number alone says which bytes may come next. -/

namespace SealedMessage.Payload

open Text

/-- A byte that cannot stand behind `x`, whatever comes after it. -/
inductive IsStray (x : Bytes) : UInt8 → Prop
  | foreign (c : UInt8) (h : ¬ Base64.IsAlphabet c) (hf : c ≠ Base64.filler) : IsStray x c
  | late (c : UInt8) (h : Base64.IsAlphabet c) (hx : Base64.filler ∈ x) : IsStray x c
  | third (h : 2 ≤ x.count Base64.filler) : IsStray x Base64.filler

theorem isStray_iff {x : Bytes} {c : UInt8} :
    IsStray x c ↔ if c = Base64.filler then 2 ≤ x.count Base64.filler
      else Base64.isDigit c = false ∨ Base64.filler ∈ x := by
  have hd : Base64.isDigit c = false ↔ ¬ Base64.IsAlphabet c := by
    rw [← Base64.isDigit_iff, Bool.not_eq_true]
  constructor
  · intro hs
    cases hs with
    | foreign _ h hf =>
      rw [if_neg hf]
      exact .inl (hd.2 h)
    | late _ h hx =>
      rw [if_neg (Base64.ne_filler_of_isDigit (Base64.isDigit_iff.2 h))]
      exact .inr hx
    | third h =>
      rw [if_pos rfl]
      exact h
  · intro hs
    split_ifs at hs with hf
    · rw [hf]
      exact .third hs
    · by_cases hc : Base64.IsAlphabet c
      · exact .late c hc (hs.resolve_left fun h => hd.1 h hc)
      · exact .foreign c hc hf

namespace ScanState

/-- How many fillers a state has behind it. -/
def fillers : ScanState → ℕ
  | digits => 0
  | oneFiller => 1
  | twoFillers => 2

variable {s t : ScanState} {x : Bytes} {c : UInt8}

/-- The scan stops at stray bytes and at no others. -/
theorem next?_eq_none_iff (h : x.count Base64.filler = s.fillers) :
    s.next? c = none ↔ IsStray x c := by
  have hmem : Base64.filler ∈ x ↔ 0 < s.fillers := by rw [← h, List.count_pos_iff]
  rw [isStray_iff, hmem, h]
  cases s with
  | digits =>
    rw [next?]
    by_cases hf : c = Base64.filler
    · simp [hf, Base64.isDigit_filler, fillers]
    · simp [hf, fillers]
  | oneFiller =>
    rw [next?]
    by_cases hf : c = Base64.filler
    · simp [hf, fillers]
    · simp [hf, fillers]
  | twoFillers => simp [next?, fillers]

/-- The state stays the number of fillers from one byte to the next. -/
theorem count_concat (h : x.count Base64.filler = s.fillers) (ht : s.next? c = some t) :
    (x ++ [c]).count Base64.filler = t.fillers := by
  rw [List.count_append, h]
  cases s with
  | digits =>
    rw [next?] at ht
    split_ifs at ht with hd hf
    · cases ht
      rw [List.count_singleton, if_neg (by simpa using Base64.ne_filler_of_isDigit hd)]
      rfl
    · cases ht
      rw [hf, List.count_singleton_self]
      rfl
  | oneFiller =>
    rw [next?] at ht
    split_ifs at ht with hf
    cases ht
    rw [hf, List.count_singleton_self]
    rfl
  | twoFillers => cases ht

end ScanState

/-- Behind `x`, the scan fails exactly on what has a stray byte in it. -/
theorem scanFrom_eq_false_iff {s : ScanState} {x y : Bytes}
    (h : x.count Base64.filler = s.fillers) :
    scanFrom s y = false ↔ ∃ z c w, y = z ++ c :: w ∧ IsStray (x ++ z) c := by
  -- what was read grows with every byte, and the state goes on counting its fillers
  induction y generalizing s x with
  | nil => simp [scanFrom]
  | cons c r ih =>
    rw [scanFrom]
    cases hn : s.next? c with
    | none =>
      have hc : IsStray x c := (ScanState.next?_eq_none_iff h).1 hn
      exact iff_of_true rfl ⟨[], c, r, rfl, by rwa [List.append_nil]⟩
    | some t =>
      have hc : ¬ IsStray x c := fun hc => by
        rw [(ScanState.next?_eq_none_iff h).2 hc] at hn
        cases hn
      rw [ih (ScanState.count_concat h hn)]
      constructor
      · rintro ⟨z, c', w, rfl, hz⟩
        exact ⟨c :: z, c', w, rfl, by rwa [List.append_cons]⟩
      · rintro ⟨z, c', w, he, hz⟩
        cases z with
        | nil =>
          obtain ⟨rfl, rfl⟩ := List.cons.inj he
          exact absurd (by rwa [List.append_nil] at hz) hc
        | cons a z =>
          obtain ⟨rfl, rfl⟩ := List.cons.inj he
          exact ⟨z, c', w, rfl, by rwa [List.append_cons] at hz⟩

variable {e : Bytes}

theorem not_isScanned_iff : ¬ IsScanned e ↔ ∃ x c y, e = x ++ c :: y ∧ IsStray x c := by
  have ht : scanFrom .digits e = true ↔ IsScanned e := scanFrom_eq_true_iff
  have hf := scanFrom_eq_false_iff (s := .digits) (x := []) (y := e) rfl
  simpa only [← ht, Bool.not_eq_true, List.nil_append] using hf

/-- The scan keeps nothing from the reader of base64. -/
theorem scan_of_decode? {d : Bytes} (hl : minEncoded ≤ e.length ∧ e.length ≤ maxEncoded)
    (hd : Base64.decode? e = some d) : scan e = .ok () := by
  obtain rfl := Base64.decode?_eq_some_iff.1 hd
  have hlen := Base64.length_encode d
  simp only [minEncoded, maxEncoded] at hl
  rw [scan_encode, if_neg (by omega)]

/-- The scan accepts base64 with at most two fillers behind it, in whole groups and within the
bounds, and says of everything else what is the first thing wrong with it. Where the characters are
wrong there is a byte that cannot stand where it does, and wherever there is one it is noticed. -/
theorem scan_recognises_language (e : Bytes) :
    (scan e = .ok () ↔ (132 ≤ e.length ∧ e.length ≤ 87472) ∧ 4 ∣ e.length ∧
      ∃ u v : Bytes, e = u ++ v ∧ (∀ c ∈ u, Base64.IsAlphabet c) ∧
        (v = [] ∨ v = [Base64.filler] ∨ v = [Base64.filler, Base64.filler])) ∧
    (¬ (132 ≤ e.length ∧ e.length ≤ 87472) → scan e = .error (.badPayload .encodedLength)) ∧
    (132 ≤ e.length ∧ e.length ≤ 87472 → ¬ 4 ∣ e.length →
      scan e = .error (.badPayload .raggedLength)) ∧
    (132 ≤ e.length ∧ e.length ≤ 87472 → 4 ∣ e.length →
      (scan e = .error (.badPayload .character) ↔
        ¬ ∃ u v : Bytes, e = u ++ v ∧ (∀ c ∈ u, Base64.IsAlphabet c) ∧
          (v = [] ∨ v = [Base64.filler] ∨ v = [Base64.filler, Base64.filler])) ∧
      (scan e = .error (.badPayload .character) ↔ ∃ x c y, e = x ++ c :: y ∧ IsStray x c)) ∧
    (132 ≤ e.length ∧ e.length ≤ 87472 → (∃ d, Base64.decode? e = some d) → scan e = .ok ()) ∧
    [PayloadDefect.encodedLength, .raggedLength, .character].map PayloadDefect.message =
      ["encoded length out of range", "encoded length not a multiple of 4",
        "invalid base64 character"] := by
  refine ⟨?_, fun hl => ?_, scan_of_not_dvd, fun hl h4 => ⟨?_, ?_⟩, ?_, rfl⟩
  · rw [scan_eq_ok_iff, isScanned_iff]
    rfl
  · exact scan_of_length hl
  · rw [scan_eq_character_iff hl h4, isScanned_iff]
  · rw [scan_eq_character_iff hl h4, not_isScanned_iff]
  · rintro hl ⟨d, hd⟩
    exact scan_of_decode? hl hd

/-- A byte above 127 in the midst of digits, a digit behind a filler, a third filler, a group that
is not whole, and the base64 of 99 bytes. -/
theorem scan_recognises_language_five :
    let foreign : Bytes := List.replicate 50 65 ++ 195 :: List.replicate 81 65
    let late : Bytes := List.replicate 130 65 ++ [Base64.filler] ++ 65 :: []
    let third : Bytes := (List.replicate 129 65 ++ [Base64.filler, Base64.filler]) ++
      Base64.filler :: []
    let ragged : Bytes := List.replicate 133 65
    let good : Bytes := Base64.encode (List.replicate 99 0)
    (scan foreign = .error (.badPayload .character) ∧ scan late = .error (.badPayload .character) ∧
        scan third = .error (.badPayload .character)) ∧
      scan ragged = .error (.badPayload .raggedLength) ∧
      (132 ≤ good.length ∧ good.length ≤ 87472) ∧ scan good = .ok () := by
  intro foreign late third ragged good
  have hforeign : foreign.length = 132 := by simp [foreign]
  have hlate : late.length = 132 := by simp [late]
  have hthird : third.length = 132 := by simp [third]
  have hragged : ragged.length = 133 := by simp [ragged]
  have hgood : good.length = 132 := Base64.length_encode _
  obtain ⟨-, -, -, h₁, -⟩ := scan_recognises_language foreign
  obtain ⟨-, -, -, h₂, -⟩ := scan_recognises_language late
  obtain ⟨-, -, -, h₃, -⟩ := scan_recognises_language third
  obtain ⟨-, -, h₄, -⟩ := scan_recognises_language ragged
  obtain ⟨-, -, -, -, h₅, -⟩ := scan_recognises_language good
  refine ⟨⟨(h₁ (by omega) (by omega)).2.2 ⟨_, _, _, rfl, .foreign 195 ?_ ?_⟩,
    (h₂ (by omega) (by omega)).2.2 ⟨_, _, _, rfl, .late 65 ?_ ?_⟩,
    (h₃ (by omega) (by omega)).2.2 ⟨_, _, _, rfl, .third ?_⟩⟩, h₄ (by omega) (by omega),
    by omega, h₅ (by omega) ⟨_, Base64.decode?_encode _⟩⟩
  · rw [← Base64.isDigit_iff]
    decide
  · decide
  · exact Base64.isDigit_iff.1 (by decide)
  · decide
  · decide

end SealedMessage.Payload
