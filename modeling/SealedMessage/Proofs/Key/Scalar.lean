import Mathlib
import SealedMessage.Bytes.Digits
import SealedMessage.Key.Secret

/-! A secret key is read from its own bytes and from no others, and every number between zero and
the order is the number of a secret key. -/

namespace SealedMessage

open Curve

/-- The bytes of a number between zero and the order of the curve. -/
def IsScalar (b : Bytes) : Prop := 0 < b.toNat ∧ b.toNat < order

instance : DecidablePred IsScalar := fun b =>
  inferInstanceAs (Decidable (0 < b.toNat ∧ b.toNat < order))

namespace SecretKey

variable {a b : SecretKey} {d : ByteVec 32}

theorem eq_of_scalar (h : a.scalar = b.scalar) : a = b := by
  cases a
  cases b
  cases h
  rfl

theorem toNat_toBytes (a : SecretKey) : a.toBytes.toNat = a.scalar :=
  ByteVec.toNat_bigEndian (a.lt.trans (by decide))

theorem isScalar_toBytes (a : SecretKey) : IsScalar a.toBytes.toList := by
  have hval : a.toBytes.toList.toNat = a.scalar := a.toNat_toBytes
  rw [IsScalar, hval]
  exact ⟨a.pos, a.lt⟩

theorem exists_ofBytes (h : IsScalar d.toList) : ∃ a, ofBytes d = .ok a ∧ a.toBytes = d := by
  refine ⟨⟨d.toNat, h.1, h.2⟩, dif_pos h, ?_⟩
  rw [toBytes, ByteVec.bigEndian_toNat]

theorem ofBytes_of_not (h : ¬ IsScalar d.toList) : ofBytes d = .error (.badKey .secretRange) :=
  dif_neg h

theorem ofBytes_eq_ok_iff : ofBytes d = .ok a ↔ a.toBytes = d := by
  by_cases h : IsScalar d.toList
  · obtain ⟨b, hb, hbd⟩ := exists_ofBytes h
    rw [hb, Except.ok.injEq]
    constructor
    · rintro rfl
      exact hbd
    · intro ha
      apply eq_of_scalar
      rw [← toNat_toBytes, ← toNat_toBytes, hbd, ha]
  · rw [ofBytes_of_not h]
    constructor
    · nofun
    · rintro rfl
      exact absurd a.isScalar_toBytes h

theorem ofBytes_toBytes (a : SecretKey) : ofBytes a.toBytes = .ok a := ofBytes_eq_ok_iff.2 rfl

theorem ofSlice_toList (d : ByteVec 32) : ofSlice d.toList = ofBytes d := by
  rw [ofSlice, ByteVec.ofList?_toList]

end SecretKey

end SealedMessage
