import SealedMessage.Text.Base64

/-! Base64 is canonical: reading gives back what was written, and accepts nothing else. -/

namespace SealedMessage.Text.Base64

theorem value?_digit {n : Nat} (h : n < 64) : value? (digit n) = some n := by
  revert n
  decide

theorem digit_ne_filler {n : Nat} (h : n < 64) : digit n ≠ filler := by
  revert n
  decide

theorem digit_of_value?_ofNat :
    ∀ k < 256, ∀ n ∈ value? (UInt8.ofNat k), n < 64 ∧ digit n = UInt8.ofNat k := by
  decide +kernel

theorem digit_of_value? {c : UInt8} {n : Nat} (h : value? c = some n) : n < 64 ∧ digit n = c := by
  have hk := digit_of_value?_ofNat c.toNat c.toNat_lt n
  rw [UInt8.ofNat_toNat] at hk
  exact hk h

theorem ofNat_eq_of_toNat {n : Nat} {a : UInt8} (h : n = a.toNat) : UInt8.ofNat n = a := by
  rw [h, UInt8.ofNat_toNat]

theorem full?_digits (a b c : UInt8) :
    full? (digit (a.toNat / 4)) (digit (a.toNat % 4 * 16 + b.toNat / 16))
      (digit (b.toNat % 16 * 4 + c.toNat / 64)) (digit (c.toNat % 64)) = some [a, b, c] := by
  have ha := a.toNat_lt
  have hb := b.toNat_lt
  have hc := c.toNat_lt
  simp only [full?, value?_digit (show a.toNat / 4 < 64 by omega),
    value?_digit (show a.toNat % 4 * 16 + b.toNat / 16 < 64 by omega),
    value?_digit (show b.toNat % 16 * 4 + c.toNat / 64 < 64 by omega),
    value?_digit (show c.toNat % 64 < 64 by omega), Option.bind_eq_bind, Option.bind_some,
    Option.pure_def]
  rw [ofNat_eq_of_toNat (a := a) (by omega), ofNat_eq_of_toNat (a := b) (by omega),
    ofNat_eq_of_toNat (a := c) (by omega)]

theorem pair?_digits (a b : UInt8) :
    pair? (digit (a.toNat / 4)) (digit (a.toNat % 4 * 16 + b.toNat / 16))
      (digit (b.toNat % 16 * 4)) = some [a, b] := by
  have ha := a.toNat_lt
  have hb := b.toNat_lt
  simp only [pair?, value?_digit (show a.toNat / 4 < 64 by omega),
    value?_digit (show a.toNat % 4 * 16 + b.toNat / 16 < 64 by omega),
    value?_digit (show b.toNat % 16 * 4 < 64 by omega), Option.bind_eq_bind, Option.bind_some,
    Option.pure_def]
  rw [if_pos (by omega), ofNat_eq_of_toNat (a := a) (by omega),
    ofNat_eq_of_toNat (a := b) (by omega)]

theorem single?_digits (a : UInt8) :
    single? (digit (a.toNat / 4)) (digit (a.toNat % 4 * 16)) = some [a] := by
  have ha := a.toNat_lt
  simp only [single?, value?_digit (show a.toNat / 4 < 64 by omega),
    value?_digit (show a.toNat % 4 * 16 < 64 by omega), Option.bind_eq_bind, Option.bind_some,
    Option.pure_def]
  rw [if_pos (by omega), ofNat_eq_of_toNat (a := a) (by omega)]

theorem isEmpty_encode (b : Bytes) : (encode b).isEmpty = b.isEmpty := by
  fun_cases encode b <;> rfl

theorem decode?_encode (b : Bytes) : decode? (encode b) = some b := by
  fun_induction encode b with
  | case1 => rfl
  | case2 a =>
    simp only [decode?, last?, single?_digits, List.isEmpty_nil, ne_eq, not_true_eq_false, if_true,
      if_false]
  | case3 a b =>
    have hd := digit_ne_filler (show b.toNat % 16 * 4 < 64 by have := b.toNat_lt; omega)
    simp only [decode?, last?, pair?_digits, List.isEmpty_nil, ne_eq, not_true_eq_false, if_true,
      if_false, hd, not_false_eq_true]
  | case4 a b c r ih =>
    have hd := digit_ne_filler (show c.toNat % 64 < 64 by omega)
    rw [decode?, ih, full?_digits, isEmpty_encode, last?, if_pos hd, full?_digits]
    cases r <;> rfl

theorem digit_cons {m n : Nat} {s t : Bytes} (h : m = n) (h' : s = t) :
    digit m :: s = digit n :: t := by
  rw [h, h']

theorem encode_of_full? {a b c d : UInt8} {x : Bytes} (h : full? a b c d = some x) (r : Bytes) :
    encode (x ++ r) = a :: b :: c :: d :: encode r := by
  simp only [full?, Option.bind_eq_bind, Option.bind_eq_some_iff, Option.pure_def,
    Option.some.injEq] at h
  obtain ⟨w, hw, u, hu, y, hy, z, hz, rfl⟩ := h
  obtain ⟨lw, rfl⟩ := digit_of_value? hw
  obtain ⟨lu, rfl⟩ := digit_of_value? hu
  obtain ⟨ly, rfl⟩ := digit_of_value? hy
  obtain ⟨lz, rfl⟩ := digit_of_value? hz
  simp only [List.cons_append, List.nil_append, encode, UInt8.toNat_ofNat']
  exact digit_cons (by omega) (digit_cons (by omega) (digit_cons (by omega)
    (digit_cons (by omega) rfl)))

theorem encode_of_last? {a b c d : UInt8} {x : Bytes} (h : last? a b c d = some x) :
    encode x = [a, b, c, d] := by
  unfold last? at h
  split at h
  · have hx := encode_of_full? h []
    rwa [List.append_nil] at hx
  · rename_i hd
    have ed : d = filler := Decidable.not_not.1 hd
    split at h
    · simp only [pair?, Option.bind_eq_bind, Option.bind_eq_some_iff, Option.pure_def] at h
      obtain ⟨w, hw, u, hu, y, hy, h⟩ := h
      obtain ⟨lw, rfl⟩ := digit_of_value? hw
      obtain ⟨lu, rfl⟩ := digit_of_value? hu
      obtain ⟨ly, rfl⟩ := digit_of_value? hy
      split at h
      · obtain rfl := Option.some.inj h
        simp only [encode, UInt8.toNat_ofNat', ed]
        exact digit_cons (by omega) (digit_cons (by omega) (digit_cons (by omega) rfl))
      · exact absurd h (by simp)
    · rename_i hc
      have ec : c = filler := Decidable.not_not.1 hc
      simp only [single?, Option.bind_eq_bind, Option.bind_eq_some_iff, Option.pure_def] at h
      obtain ⟨w, hw, u, hu, h⟩ := h
      obtain ⟨lw, rfl⟩ := digit_of_value? hw
      obtain ⟨lu, rfl⟩ := digit_of_value? hu
      split at h
      · obtain rfl := Option.some.inj h
        simp only [encode, UInt8.toNat_ofNat', ed, ec]
        exact digit_cons (by omega) (digit_cons (by omega) rfl)
      · exact absurd h (by simp)

theorem encode_of_decode? {t b : Bytes} (h : decode? t = some b) : encode b = t := by
  fun_induction decode? t generalizing b with
  | case1 => obtain rfl := Option.some.inj h; rfl
  | case2 a b c d r hr =>
    obtain rfl : r = [] := List.isEmpty_iff.1 hr
    exact encode_of_last? h
  | case3 a b c d r hr ih =>
    simp only [Option.bind_eq_bind, Option.bind_eq_some_iff, Option.pure_def,
      Option.some.injEq] at h
    obtain ⟨x, hx, y, hy, rfl⟩ := h
    rw [encode_of_full? hx, ih hy]
  | case4 => exact absurd h (by simp)

theorem decode?_eq_some_iff {t b : Bytes} : decode? t = some b ↔ t = encode b :=
  ⟨fun h => (encode_of_decode? h).symm, fun h => h ▸ decode?_encode b⟩

theorem length_encode (b : Bytes) : (encode b).length = 4 * ((b.length + 2) / 3) := by
  fun_induction encode b with
  | case1 => rfl
  | case2 => simp
  | case3 => simp
  | case4 a b c r ih =>
    simp only [List.length_cons, ih]
    omega

end SealedMessage.Text.Base64
