import Mathlib
import SealedMessage.Proofs.Text.Ascii

/-! Texts in hexadecimal: two digits for each byte, the higher half first, every digit in upper or
in lower case. The bytes of such a text are read as the bytes that it spells, and no other text is
read. -/

namespace SealedMessage.Text.Hex

/-- The digit of value `n`: from ten on it is a letter, in either case. -/
inductive IsDigit : Char → ℕ → Prop
  | decimal {c : Char} {n : ℕ} (lt : n < 10) (eq : c.toNat = '0'.toNat + n) : IsDigit c n
  | lower {c : Char} {n : ℕ} (lt : n < 6) (eq : c.toNat = 'a'.toNat + n) : IsDigit c (10 + n)
  | upper {c : Char} {n : ℕ} (lt : n < 6) (eq : c.toNat = 'A'.toNat + n) : IsDigit c (10 + n)

/-- The characters spell the bytes. -/
inductive Spells : List Char → Bytes → Prop
  | nil : Spells [] []
  | cons {c d : Char} {x : UInt8} {cs : List Char} {b : Bytes} (high : IsDigit c (x.toNat / 16))
      (low : IsDigit d (x.toNat % 16)) (rest : Spells cs b) : Spells (c :: d :: cs) (x :: b)

variable {c : Char} {n : ℕ} {cs : List Char} {b e : Bytes}

/-- What holds of every digit in its own place holds of a digit. -/
theorem IsDigit.elim {P : ℕ → ℕ → Prop} (h : IsDigit c n) (hd : ∀ n < 10, P ('0'.toNat + n) n)
    (hl : ∀ n < 6, P ('a'.toNat + n) (10 + n)) (hu : ∀ n < 6, P ('A'.toNat + n) (10 + n)) :
    P c.toNat n := by
  cases h with
  | decimal lt eq => exact eq ▸ hd _ lt
  | lower lt eq => exact eq ▸ hl _ lt
  | upper lt eq => exact eq ▸ hu _ lt

theorem IsDigit.lt (h : IsDigit c n) : n < 16 := by
  cases h <;> omega

theorem IsDigit.toNat_lt (h : IsDigit c n) : c.toNat < 128 :=
  h.elim (P := fun k _ => k < 128) (by decide) (by decide) (by decide)

theorem IsDigit.value? (h : IsDigit c n) :
    Hex.value? (UInt8.ofNat c.toNat) = some (UInt8.ofNat n) :=
  h.elim (P := fun k n => Hex.value? (UInt8.ofNat k) = some (UInt8.ofNat n))
    (by decide) (by decide) (by decide)

theorem IsDigit.isBlank_eq_false (h : IsDigit c n) : isBlank c = false := by
  rw [← Char.ofNat_toNat c]
  exact h.elim (P := fun k _ => Text.isBlank (Char.ofNat k) = false)
    (by decide) (by decide) (by decide)

theorem toNat_char {x : UInt8} (h : x < 128) : (Char.ofNat x.toNat).toNat = x.toNat := by
  rw [Char.toNat, toNat_ofNat_of_lt h, UInt8.toNat_toUInt32]

theorem toNat_of_value? {x n : UInt8} (h : value? x = some n) :
    n.toNat < 10 ∧ x.toNat = 48 + n.toNat ∨ ∃ m < 6, n.toNat = 10 + m ∧
      (x.toNat = 97 + m ∨ x.toNat = 65 + m) := by
  unfold value? at h
  split_ifs at h with hc hc hc
  all_goals
    obtain rfl := Option.some.inj h
    have hlo := UInt8.le_iff_toNat_le.1 hc.1
    have hhi := UInt8.le_iff_toNat_le.1 hc.2
  · have hsub := UInt8.toNat_sub_of_le x 48 hc.1
    simp only [UInt8.reduceToNat] at hsub hlo hhi
    omega
  -- a letter counts from ten, so what is taken from it is ten less than its first letter
  · have hsub := UInt8.toNat_sub_of_le x 87 (UInt8.le_trans (by decide) hc.1)
    simp only [UInt8.reduceToNat] at hsub hlo hhi
    exact .inr ⟨x.toNat - 97, by omega, by omega, .inl (by omega)⟩
  · have hsub := UInt8.toNat_sub_of_le x 55 (UInt8.le_trans (by decide) hc.1)
    simp only [UInt8.reduceToNat] at hsub hlo hhi
    exact .inr ⟨x.toNat - 65, by omega, by omega, .inr (by omega)⟩

theorem isDigit_of_value? {x n : UInt8} (h : value? x = some n) :
    x < 128 ∧ IsDigit (Char.ofNat x.toNat) n.toNat := by
  have hdigit := toNat_of_value? h
  have hx : x < 128 := UInt8.lt_iff_toNat_lt.2 (show x.toNat < 128 by omega)
  rw [← toNat_char hx] at hdigit
  refine ⟨hx, ?_⟩
  rcases hdigit with ⟨hn, hc⟩ | ⟨m, hm, hn, hc | hc⟩
  · exact .decimal hn hc
  · rw [hn]
    exact .lower hm hc
  · rw [hn]
    exact .upper hm hc

theorem IsDigit.utf8EncodeChar (h : IsDigit c n) :
    String.utf8EncodeChar c = [UInt8.ofNat c.toNat] := by
  have hc : (UInt8.ofNat c.toNat).toNat = c.toNat :=
    UInt8.toNat_ofNat_of_lt' (h.toNat_lt.trans (by decide))
  have hlt : UInt8.ofNat c.toNat < 128 := UInt8.lt_iff_toNat_lt.2 (by rw [hc]; exact h.toNat_lt)
  have henc := utf8EncodeChar_ofNat hlt
  rwa [hc, Char.ofNat_toNat] at henc

theorem toNat_high (x : UInt8) : (x / 16).toNat = x.toNat / 16 := UInt8.toNat_div x 16

theorem toNat_low (x : UInt8) : (x % 16).toNat = x.toNat % 16 := UInt8.toNat_mod x 16

namespace Spells

theorem length_eq (h : Spells cs b) : cs.length = 2 * b.length := by
  induction h with
  | nil => rfl
  | cons _ _ _ ih =>
    rw [List.length_cons, List.length_cons, List.length_cons, ih]
    omega

theorem exists_isDigit (h : Spells cs b) : ∀ c ∈ cs, ∃ n, IsDigit c n := by
  induction h with
  | nil => exact List.forall_mem_nil _
  | cons high low _ ih =>
    rw [List.forall_mem_cons, List.forall_mem_cons]
    exact ⟨⟨_, high⟩, ⟨_, low⟩, ih⟩

theorem isBlank_eq_false (h : Spells cs b) : ∀ c ∈ cs, isBlank c = false := by
  intro c hc
  obtain ⟨n, hn⟩ := h.exists_isDigit c hc
  exact hn.isBlank_eq_false

theorem decode? (h : Spells cs b) : Hex.decode? (cs.flatMap String.utf8EncodeChar) = some b := by
  induction h with
  | nil => rfl
  | @cons c d x cs b high low _ ih =>
    rw [← toNat_high] at high
    rw [← toNat_low] at low
    rw [List.flatMap_cons, List.flatMap_cons, high.utf8EncodeChar, low.utf8EncodeChar]
    simp only [List.cons_append, List.nil_append, Hex.decode?, high.value?, low.value?, ih,
      Option.bind_eq_bind, Option.bind_some, Option.pure_def, UInt8.ofNat_toNat, join_halves]

end Spells

/-- Enough digits spell some bytes. -/
theorem exists_spells {k : ℕ} (hl : cs.length = 2 * k) (h : ∀ c ∈ cs, ∃ n, IsDigit c n) :
    ∃ b, b.length = k ∧ Spells cs b := by
  induction k generalizing cs with
  | zero =>
    obtain rfl := List.eq_nil_of_length_eq_zero hl
    exact ⟨[], rfl, .nil⟩
  | succ k ih =>
    match cs, hl, h with
    | c :: d :: cs, hl, h =>
      rw [List.forall_mem_cons, List.forall_mem_cons] at h
      obtain ⟨⟨m, hm⟩, ⟨n, hn⟩, hrest⟩ := h
      obtain ⟨b, hb, hcs⟩ := ih (by simp only [List.length_cons] at hl; omega) hrest
      have hlm := hm.lt
      have hln := hn.lt
      have hx : (UInt8.ofNat (m * 16 + n)).toNat = m * 16 + n :=
        UInt8.toNat_ofNat_of_lt' (show m * 16 + n < 256 by omega)
      refine ⟨UInt8.ofNat (m * 16 + n) :: b, by rw [List.length_cons, hb], .cons ?_ ?_ hcs⟩
      · rwa [hx, show (m * 16 + n) / 16 = m by omega]
      · rwa [hx, show (m * 16 + n) % 16 = n by omega]

theorem spells_of_decode? (h : decode? e = some b) :
    (∀ x ∈ e, x < 128) ∧ Spells (e.map fun x => Char.ofNat x.toNat) b := by
  fun_induction decode? e generalizing b with
  | case1 =>
    obtain rfl := Option.some.inj h
    exact ⟨List.forall_mem_nil _, .nil⟩
  | case2 hi lo r ih =>
    simp only [Option.bind_eq_bind, Option.bind_eq_some_iff, Option.pure_def,
      Option.some.injEq] at h
    obtain ⟨u, hu, v, hv, rest, hr, rfl⟩ := h
    obtain ⟨hhi, hu'⟩ := isDigit_of_value? hu
    obtain ⟨hlo, hv'⟩ := isDigit_of_value? hv
    obtain ⟨hascii, hspells⟩ := ih hr
    -- the halves of the byte that was read are the values of its two digits again
    obtain ⟨ehigh, elow⟩ := halves (UInt8.lt_iff_toNat_lt.2 hu'.lt) (UInt8.lt_iff_toNat_lt.2 hv'.lt)
    refine ⟨List.forall_mem_cons.2 ⟨hhi, List.forall_mem_cons.2 ⟨hlo, hascii⟩⟩,
      .cons ?_ ?_ hspells⟩
    · rwa [← toNat_high, ehigh]
    · rwa [← toNat_low, elow]
  | case3 => exact absurd h (by simp)

theorem decode?_utf8_eq_some_iff {s : String} : decode? (utf8 s) = some b ↔ Spells s.toList b := by
  refine ⟨fun h => ?_, Spells.decode?⟩
  obtain ⟨hascii, hspells⟩ := spells_of_decode? h
  have hs : s = ofAscii (utf8 s) := utf8_injective (utf8_ofAscii hascii).symm
  rw [hs, ofAscii, String.toList_ofList]
  exact hspells

theorem value?_digit_ofNat : ∀ n < 16,
    value? (digit (UInt8.ofNat n)) = some (UInt8.ofNat n) := by
  decide

theorem isDigit_digit {n : UInt8} (h : n < 16) :
    IsDigit (Char.ofNat (digit n).toNat) n.toNat := by
  have hn := value?_digit_ofNat n.toNat (UInt8.lt_iff_toNat_lt.1 h)
  rw [UInt8.ofNat_toNat] at hn
  exact (isDigit_of_value? hn).2

theorem spells_text (b : Bytes) : Spells (text b).toList b := by
  rw [text, ofAscii, String.toList_ofList]
  induction b with
  | nil => exact .nil
  | cons x b ih =>
    rw [encode_cons, List.map_cons, List.map_cons]
    apply Spells.cons _ _ ih
    · rw [← toNat_high]
      exact isDigit_digit (halves_lt x).1
    · rw [← toNat_low]
      exact isDigit_digit (halves_lt x).2

end SealedMessage.Text.Hex
