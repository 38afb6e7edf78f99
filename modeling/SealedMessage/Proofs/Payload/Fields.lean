import Mathlib
import SealedMessage.Payload.Wire

/-! The bytes of a payload and its fields determine each other: any byte string with room for a
version, a nonce and a tag falls into fields in one way, and then only its version can be
refused. -/

namespace SealedMessage

namespace Version

variable {b : UInt8} {v : Version}

theorem ofByte_eq_ok_iff : ofByte b = .ok v ↔ b = v.toByte := by
  constructor
  · unfold ofByte
    intro h
    split_ifs at h with h₀ h₁ h₂
    all_goals cases h
    · exact h₀
    · exact h₁
    · exact h₂
  · rintro rfl
    exact ofByte_toByte v

theorem ofByte_eq_error {r : Refusal} (h : ofByte b = .error r) : r = .unsupportedVersion b := by
  unfold ofByte at h
  split_ifs at h
  all_goals cases h
  rfl

theorem exists_toByte (h : b ≤ 2) : ∃ v : Version, b = v.toByte := by
  have hb : b.toNat ≤ 2 := UInt8.le_iff_toNat_le.1 h
  obtain h0 | h1 | h2 : b.toNat = 0 ∨ b.toNat = 1 ∨ b.toNat = 2 := by omega
  · exact ⟨v0, UInt8.toNat_inj.1 h0⟩
  · exact ⟨v1, UInt8.toNat_inj.1 h1⟩
  · exact ⟨v2, UInt8.toNat_inj.1 h2⟩

theorem ofByte_of_gt (h : 2 < b) : ofByte b = .error (.unsupportedVersion b) := by
  cases hv : ofByte b with
  | error r => rw [ofByte_eq_error hv]
  | ok v =>
    obtain rfl := ofByte_eq_ok_iff.1 hv
    cases v <;> exact absurd h (by decide)

theorem toByte_eq_two_iff : v.toByte = 2 ↔ v = current := by
  cases v <;> decide

end Version

/-- The refusals that need no key. -/
inductive Refusal.IsStructural : Refusal → Prop
  | payload (defect : PayloadDefect) : IsStructural (.badPayload defect)
  | version (byte : UInt8) : IsStructural (.unsupportedVersion byte)

namespace Payload

/-- The bytes of a payload whose first byte need not be a version. -/
def fieldBytes (first : UInt8) (nonce : Nonce) (ciphertext : Bytes) (tag : Tag) : Bytes :=
  first :: (nonce.toList ++ ciphertext ++ tag.toList)

variable (first : UInt8) (nonce : Nonce) (ciphertext : Bytes) (tag : Tag)

theorem toBytes_eq (p : Payload) :
    p.toBytes = fieldBytes p.version.toByte p.nonce p.ciphertext p.tag := rfl

@[simp] theorem length_fieldBytes :
    (fieldBytes first nonce ciphertext tag).length = 65 + ciphertext.length := by
  simp only [fieldBytes, List.length_cons, List.length_append, ByteVec.length_eq, Sizes.nonce,
    Sizes.tag]
  omega

theorem length_toBytes (p : Payload) : p.toBytes.length = 65 + p.ciphertext.length :=
  length_fieldBytes _ _ _ _

theorem exists_fieldBytes {d : Bytes} (h : 65 ≤ d.length) :
    ∃ first nonce ciphertext tag, d = fieldBytes first nonce ciphertext tag := by
  cases d with
  | nil => exact absurd h (by simp)
  | cons first r =>
    have hr : 64 ≤ r.length := Nat.le_of_succ_le_succ h
    have hnonce : (r.take 32).length = 32 := by
      rw [List.length_take]
      omega
    have htag : ((r.drop 32).drop (r.length - 64)).length = 32 := by
      rw [List.length_drop, List.length_drop]
      omega
    refine ⟨first, ⟨_, hnonce⟩, (r.drop 32).take (r.length - 64), ⟨_, htag⟩, ?_⟩
    rw [fieldBytes, List.append_assoc, List.take_append_drop, List.take_append_drop]

theorem take_nonce :
    ((fieldBytes first nonce ciphertext tag).drop 1).take (33 - 1) = nonce.toList := by
  have h : nonce.toList.length = 33 - 1 := nonce.length_eq
  rw [fieldBytes, List.drop_one, List.tail_cons, List.append_assoc, ← h, List.take_left]

theorem drop_nonce :
    (fieldBytes first nonce ciphertext tag).drop 33 = ciphertext ++ tag.toList := by
  rw [fieldBytes, List.drop_succ_cons, List.append_assoc, List.drop_left' nonce.length_eq]

theorem drop_tag :
    (fieldBytes first nonce ciphertext tag).drop (33 + ciphertext.length) = tag.toList := by
  rw [← List.drop_drop, drop_nonce, List.drop_left]

/-- Every access of `ofBytes` is in range, and the fields come back. -/
theorem ofBytes_fieldBytes :
    ofBytes (fieldBytes first nonce ciphertext tag) =
      (Version.ofByte first >>= fun v => .ok ⟨v, nonce, ciphertext, tag⟩ : Attempt Payload) := by
  have hl := length_fieldBytes first nonce ciphertext tag
  have hn := take_nonce first nonce ciphertext tag
  have hd := drop_nonce first nonce ciphertext tag
  have ht := drop_tag first nonce ciphertext tag
  have hfirst : Bytes.get (fieldBytes first nonce ciphertext tag) 0 = .ok first := rfl
  generalize fieldBytes first nonce ciphertext tag = d at hl hn hd ht hfirst ⊢
  have hstart : Checked.minus d.length 32 = .ok (33 + ciphertext.length) := by
    rw [Checked.minus_of_le (by omega), hl]
    congr 1
    omega
  have hall : (d.drop (33 + ciphertext.length)).take (d.length - (33 + ciphertext.length)) =
      tag.toList := by
    have htag : tag.toList.length = 32 := tag.length_eq
    rw [ht, List.take_of_length_le (by omega)]
  unfold ofBytes
  dsimp only [Sizes.nonce, Sizes.tag]
  rw [hfirst, Attempt.liftM_checked_ok, ok_bind]
  cases Version.ofByte first with
  | error r => rfl
  | ok v =>
    rw [Attempt.liftM_refusal_ok, ok_bind, ok_bind, Bytes.slice_of_le (by omega) (by omega), hn,
      Attempt.liftM_checked_ok, ok_bind, ByteVec.copy_of_length nonce.length_eq,
      Attempt.liftM_checked_ok, ok_bind, hstart, Attempt.liftM_checked_ok, ok_bind,
      Bytes.slice_of_le (by omega) le_rfl, hall, Attempt.liftM_checked_ok, ok_bind,
      ByteVec.copy_of_length tag.length_eq, Attempt.liftM_checked_ok, ok_bind,
      Bytes.slice_of_le (by omega) (by omega), hd, Nat.add_sub_cancel_left, List.take_left]
    rfl

theorem ofBytes_toBytes (p : Payload) : ofBytes p.toBytes = .ok p := by
  rw [toBytes_eq, ofBytes_fieldBytes, Version.ofByte_toByte]
  rfl

theorem toBytes_injective : Function.Injective toBytes := by
  intro p q h
  exact Except.ok.inj (by rw [← ofBytes_toBytes p, ← ofBytes_toBytes q, h])

theorem ofBytes_eq_ok_iff {d : Bytes} (h : 65 ≤ d.length) {p : Payload} :
    ofBytes d = .ok p ↔ d = p.toBytes := by
  constructor
  · intro hp
    obtain ⟨first, nonce, ciphertext, tag, rfl⟩ := exists_fieldBytes h
    rw [ofBytes_fieldBytes] at hp
    cases hv : Version.ofByte first with
    | error r =>
      rw [hv] at hp
      cases hp
    | ok v =>
      rw [hv] at hp
      cases hp
      rw [Version.ofByte_eq_ok_iff.1 hv]
      rfl
  · rintro rfl
    exact ofBytes_toBytes p

theorem ofBytes_eq_ok_or_refuse {d : Bytes} (h : 65 ≤ d.length) :
    (∃ p, ofBytes d = .ok p) ∨ ∃ r : Refusal, r.IsStructural ∧ ofBytes d = Attempt.refuse r := by
  obtain ⟨first, nonce, ciphertext, tag, rfl⟩ := exists_fieldBytes h
  rw [ofBytes_fieldBytes]
  cases hv : Version.ofByte first with
  | error r =>
    obtain rfl := Version.ofByte_eq_error hv
    exact .inr ⟨_, .version first, rfl⟩
  | ok v => exact .inl ⟨_, rfl⟩

end Payload

end SealedMessage
