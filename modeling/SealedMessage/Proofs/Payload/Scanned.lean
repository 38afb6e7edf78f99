import Mathlib
import SealedMessage.Payload.Scan
import SealedMessage.Text.Base64.Canonical

/-! The scan of an encoded payload accepts the characters of base64 with at most two fillers behind
them, and nothing else. Where it accepts whole groups, reading base64 can only fail at bits of the
last digit that carry no data. -/

namespace SealedMessage

open Text

namespace Text.Base64

/-- The letters, the digits and the two signs of the standard alphabet. -/
def IsAlphabet (c : UInt8) : Prop :=
  ('A'.toUInt8 ≤ c ∧ c ≤ 'Z'.toUInt8) ∨ ('a'.toUInt8 ≤ c ∧ c ≤ 'z'.toUInt8) ∨
    ('0'.toUInt8 ≤ c ∧ c ≤ '9'.toUInt8) ∨ c = '+'.toUInt8 ∨ c = '/'.toUInt8

theorem isDigit_iff {c : UInt8} : isDigit c = true ↔ IsAlphabet c := by
  have hA : 'A'.toUInt8 = 65 ∧ 'Z'.toUInt8 = 90 := by decide
  have ha : 'a'.toUInt8 = 97 ∧ 'z'.toUInt8 = 122 := by decide
  have h0 : '0'.toUInt8 = 48 ∧ '9'.toUInt8 = 57 := by decide
  have hs : '+'.toUInt8 = 43 ∧ '/'.toUInt8 = 47 := by decide
  rw [IsAlphabet, hA.1, hA.2, ha.1, ha.2, h0.1, h0.2, hs.1, hs.2, isDigit, value?]
  split_ifs <;> simp_all

theorem isDigit_filler : isDigit filler = false := by decide

theorem ne_filler_of_isDigit {c : UInt8} (h : isDigit c = true) : c ≠ filler := by
  rintro rfl
  cases h

theorem value?_filler : value? filler = none := by decide

theorem exists_value?_of_isDigit {c : UInt8} (h : isDigit c = true) : ∃ n, value? c = some n :=
  Option.isSome_iff_exists.1 h

/-- Fillers stand at the end, and the last digit before them has bits that carry no data and are not
zero. -/
def HasUnusedBits (e : Bytes) : Prop :=
  ∃ c n, value? c = some n ∧
    ([c, filler] <:+ e ∧ n % 4 ≠ 0 ∨ [c, filler, filler] <:+ e ∧ n % 16 ≠ 0)

theorem suffix_append_iff {l x r : Bytes} (h : l.length ≤ r.length) : l <:+ x ++ r ↔ l <:+ r :=
  ⟨fun hl => List.suffix_of_suffix_length_le hl (List.suffix_append x r) h,
    fun hl => hl.trans (List.suffix_append x r)⟩

theorem hasUnusedBits_append_iff {x r : Bytes} (h : 3 ≤ r.length) :
    HasUnusedBits (x ++ r) ↔ HasUnusedBits r := by
  have h₂ (c : UInt8) : [c, filler].length ≤ r.length := by simp; omega
  have h₃ (c : UInt8) : [c, filler, filler].length ≤ r.length := h
  simp only [HasUnusedBits, suffix_append_iff (h₂ _), suffix_append_iff (h₃ _)]

theorem hasUnusedBits_group_iff {a b c d : UInt8} :
    HasUnusedBits [a, b, c, d] ↔ d = filler ∧
      ((∃ n, value? c = some n ∧ n % 4 ≠ 0) ∨
        c = filler ∧ ∃ n, value? b = some n ∧ n % 16 ≠ 0) := by
  have h₂ (x : UInt8) : [x, filler] <:+ [a, b, c, d] ↔ x = c ∧ filler = d := by
    simp [List.suffix_iff_eq_drop]
  have h₃ (x : UInt8) : [x, filler, filler] <:+ [a, b, c, d] ↔ x = b ∧ filler = c ∧ filler = d := by
    simp [List.suffix_iff_eq_drop]
  simp only [HasUnusedBits, h₂, h₃]
  constructor
  · rintro ⟨x, n, hx, ⟨⟨rfl, rfl⟩, hn⟩ | ⟨⟨rfl, rfl, rfl⟩, hn⟩⟩
    · exact ⟨rfl, .inl ⟨n, hx, hn⟩⟩
    · exact ⟨rfl, .inr ⟨rfl, n, hx, hn⟩⟩
  · rintro ⟨rfl, ⟨n, hc, hn⟩ | ⟨rfl, n, hb, hn⟩⟩
    · exact ⟨c, n, hc, .inl ⟨⟨rfl, rfl⟩, hn⟩⟩
    · exact ⟨b, n, hb, .inr ⟨⟨rfl, rfl, rfl⟩, hn⟩⟩

variable {a b c d : UInt8}

theorem exists_full? (ha : isDigit a = true) (hb : isDigit b = true) (hc : isDigit c = true)
    (hd : isDigit d = true) : ∃ x, full? a b c d = some x := by
  obtain ⟨w, hw⟩ := exists_value?_of_isDigit ha
  obtain ⟨x, hx⟩ := exists_value?_of_isDigit hb
  obtain ⟨y, hy⟩ := exists_value?_of_isDigit hc
  obtain ⟨z, hz⟩ := exists_value?_of_isDigit hd
  simp [full?, hw, hx, hy, hz]

theorem pair?_eq_none_iff (ha : isDigit a = true) (hb : isDigit b = true) (hc : isDigit c = true) :
    pair? a b c = none ↔ ∃ n, value? c = some n ∧ n % 4 ≠ 0 := by
  obtain ⟨w, hw⟩ := exists_value?_of_isDigit ha
  obtain ⟨x, hx⟩ := exists_value?_of_isDigit hb
  obtain ⟨y, hy⟩ := exists_value?_of_isDigit hc
  simp [pair?, hw, hx, hy]

theorem single?_eq_none_iff (ha : isDigit a = true) (hb : isDigit b = true) :
    single? a b = none ↔ ∃ n, value? b = some n ∧ n % 16 ≠ 0 := by
  obtain ⟨w, hw⟩ := exists_value?_of_isDigit ha
  obtain ⟨x, hx⟩ := exists_value?_of_isDigit hb
  simp [single?, hw, hx]

end Text.Base64

namespace Payload

open Base64

theorem isScanned_cons_iff {c : UInt8} {r : Bytes} :
    IsScanned (c :: r) ↔
      isDigit c = true ∧ IsScanned r ∨ c = filler ∧ (r = [] ∨ r = [filler]) := by
  constructor
  · rintro ⟨u, v, he, hu, hv⟩
    cases u with
    | nil =>
      rw [List.nil_append] at he
      rcases hv with rfl | rfl | rfl
      · cases he
      · obtain ⟨rfl, rfl⟩ := List.cons.inj he
        exact .inr ⟨rfl, .inl rfl⟩
      · obtain ⟨rfl, rfl⟩ := List.cons.inj he
        exact .inr ⟨rfl, .inr rfl⟩
    | cons x u =>
      obtain ⟨rfl, rfl⟩ := List.cons.inj he
      rw [List.forall_mem_cons] at hu
      exact .inl ⟨hu.1, u, v, rfl, hu.2, hv⟩
  · rintro (⟨hc, u, v, rfl, hu, hv⟩ | ⟨rfl, rfl | rfl⟩)
    · exact ⟨c :: u, v, rfl, List.forall_mem_cons.2 ⟨hc, hu⟩, hv⟩
    · exact ⟨[], [filler], rfl, by simp, .inr (.inl rfl)⟩
    · exact ⟨[], [filler, filler], rfl, by simp, .inr (.inr rfl)⟩

/-- What each state of the scan still accepts. -/
def ScanState.Accepts : ScanState → Bytes → Prop
  | digits, e => IsScanned e
  | oneFiller, e => e = [] ∨ e = [filler]
  | twoFillers, e => e = []

theorem ScanState.accepts_nil (s : ScanState) : s.Accepts [] := by
  cases s with
  | digits => exact ⟨[], [], rfl, by simp, .inl rfl⟩
  | oneFiller => exact .inl rfl
  | twoFillers => rfl

theorem ScanState.accepts_cons_iff {s : ScanState} {c : UInt8} {r : Bytes} :
    s.Accepts (c :: r) ↔ ∃ t, s.next? c = some t ∧ t.Accepts r := by
  cases s with
  | digits =>
    simp only [Accepts, next?, isScanned_cons_iff]
    split_ifs with hd hf
    · simp [hd, ne_filler_of_isDigit hd]
    · simp [hf, isDigit_filler]
    · simp [hd, hf]
  | oneFiller =>
    simp only [Accepts, next?]
    split_ifs with hf <;> simp [hf]
  | twoFillers => simp [Accepts, next?]

theorem scanFrom_eq_true_iff {s : ScanState} {e : Bytes} : scanFrom s e = true ↔ s.Accepts e := by
  induction e generalizing s with
  | nil => exact iff_of_true rfl s.accepts_nil
  | cons c r ih =>
    rw [ScanState.accepts_cons_iff, scanFrom]
    cases s.next? c with
    | none => simp
    | some t => simp [ih]

/-- The same, with the characters named. -/
theorem isScanned_iff {e : Bytes} :
    IsScanned e ↔ ∃ u v : Bytes, e = u ++ v ∧ (∀ c ∈ u, IsAlphabet c) ∧
      (v = [] ∨ v = [filler] ∨ v = [filler, filler]) := by
  simp only [IsScanned, isDigit_iff]

theorem scan_eq_ok_iff {e : Bytes} :
    scan e = .ok () ↔
      (minEncoded ≤ e.length ∧ e.length ≤ maxEncoded) ∧ 4 ∣ e.length ∧ IsScanned e := by
  have hs : scanFrom .digits e = true ↔ IsScanned e := scanFrom_eq_true_iff
  rw [scan, ← hs, Nat.dvd_iff_mod_eq_zero]
  split_ifs with hl h4 hc
  · exact iff_of_false (by simp) (by omega)
  · exact iff_of_false (by simp) (by omega)
  · exact iff_of_true rfl ⟨by omega, by omega, hc⟩
  · exact iff_of_false (by simp) (fun h => hc h.2.2)

theorem scan_of_length {e : Bytes} (hl : ¬ (minEncoded ≤ e.length ∧ e.length ≤ maxEncoded)) :
    scan e = .error (.badPayload .encodedLength) :=
  if_pos (by omega)

section InRange

variable {e : Bytes} (hl : minEncoded ≤ e.length ∧ e.length ≤ maxEncoded)

include hl

theorem scan_of_not_dvd (h4 : ¬ 4 ∣ e.length) : scan e = .error (.badPayload .raggedLength) := by
  rw [scan, if_neg (by omega), if_pos (by omega)]

/-- On whole groups the characters decide. -/
theorem scan_eq_character_iff (h4 : 4 ∣ e.length) :
    scan e = .error (.badPayload .character) ↔ ¬ IsScanned e := by
  have hs : scanFrom .digits e = true ↔ IsScanned e := scanFrom_eq_true_iff
  rw [scan, if_neg (by omega), if_neg (by omega), ← hs]
  split_ifs with hc
  · exact iff_of_false (by simp) (not_not.2 hc)
  · exact iff_of_true rfl hc

end InRange

/-- In front of whole groups stand digits only. -/
theorem IsScanned.of_cons {c : UInt8} {r : Bytes} (h : IsScanned (c :: r)) (hr : 2 ≤ r.length) :
    isDigit c = true ∧ IsScanned r := by
  rcases isScanned_cons_iff.1 h with h | ⟨-, rfl | rfl⟩
  · exact h
  · exact absurd hr (by simp)
  · exact absurd hr (by simp)

theorem last?_eq_none_iff {a b c d : UInt8} (h : IsScanned [a, b, c, d]) :
    last? a b c d = none ↔ HasUnusedBits [a, b, c, d] := by
  obtain ⟨ha, h⟩ := h.of_cons (by simp)
  obtain ⟨hb, h⟩ := h.of_cons (by simp)
  rw [hasUnusedBits_group_iff, last?]
  rcases isScanned_cons_iff.1 h with ⟨hc, h⟩ | ⟨rfl, hd⟩
  · rcases isScanned_cons_iff.1 h with ⟨hd, -⟩ | ⟨rfl, -⟩
    · obtain ⟨x, hx⟩ := exists_full? ha hb hc hd
      simp [hx, ne_filler_of_isDigit hd]
    · simp [ne_filler_of_isDigit hc, pair?_eq_none_iff ha hb hc]
  · obtain rfl : d = filler := by simpa using hd
    simp [value?_filler, single?_eq_none_iff ha hb]

/-- Reading base64 groups by group, only the last group can fail, and only at its unused bits. -/
theorem decode?_eq_none_iff {e : Bytes} (h4 : 4 ∣ e.length) (h : IsScanned e) :
    Base64.decode? e = none ↔ HasUnusedBits e := by
  fun_induction Base64.decode? e with
  | case1 => simp [HasUnusedBits]
  | case2 a b c d r hr =>
    obtain rfl : r = [] := List.isEmpty_iff.1 hr
    exact last?_eq_none_iff h
  | case3 a b c d r hr ih =>
    have hr4 : 4 ∣ r.length := by simpa [Nat.dvd_add_left] using h4
    have hne : r ≠ [] := fun e => hr (List.isEmpty_iff.2 e)
    have hlen : 4 ≤ r.length := Nat.le_of_dvd (List.length_pos_iff.2 hne) hr4
    obtain ⟨ha, h⟩ := h.of_cons (by simp only [List.length_cons]; omega)
    obtain ⟨hb, h⟩ := h.of_cons (by simp only [List.length_cons]; omega)
    obtain ⟨hc, h⟩ := h.of_cons (by simp only [List.length_cons]; omega)
    obtain ⟨hd, h⟩ := h.of_cons (by omega)
    obtain ⟨x, hx⟩ := exists_full? ha hb hc hd
    have hlast : HasUnusedBits ([a, b, c, d] ++ r) ↔ HasUnusedBits r :=
      hasUnusedBits_append_iff (by omega)
    rw [hx, Option.bind_eq_bind, Option.bind_some]
    cases hr : decode? r with
    | none => exact iff_of_true rfl (hlast.2 ((ih hr4 h).1 hr))
    | some y => exact iff_of_false (by simp) (fun hu => by simp [(ih hr4 h).2 (hlast.1 hu)] at hr)
  | case4 e h₀ h₁ =>
    rcases e with _ | ⟨a, _ | ⟨b, _ | ⟨c, _ | ⟨d, r⟩⟩⟩⟩
    · exact absurd rfl h₀
    · exact absurd h4 (by simp)
    · exact absurd h4 (by simp)
    · exact absurd h4 (by simp)
    · exact absurd rfl (h₁ a b c d r)

end Payload

end SealedMessage
