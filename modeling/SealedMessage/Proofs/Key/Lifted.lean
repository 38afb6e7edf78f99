import Mathlib
import SealedMessage.Bytes.Digits
import SealedMessage.Key.Public
import SealedMessage.Proofs.Curve.Lifting

/-! What is read as a public key: the bytes of an abscissa, with the point over it whose ordinate is
even. Bytes that are no abscissa of the curve are read as none. -/

namespace SealedMessage.PublicKey

open Curve

variable {b : ByteVec 32} {k k' : PublicKey} {x y : FieldElement}

/-- The point of the key has the coordinates `x` and `y`, of which `x` stands in its bytes, and it
is the even one of the two points over `x`. -/
structure IsLifted (k : PublicKey) (x y : FieldElement) : Prop where
  point_eq : k.point = .affine x y
  val_eq : x.val = k.bytes.toNat
  even : y.val % 2 = 0
  square : y.val ^ 2 ≡ x.val ^ 3 + 7 [MOD prime]

theorem IsLifted.bytes_eq (h : k.IsLifted x y) : k.bytes = .bigEndian 32 x.val := by
  rw [h.val_eq, ByteVec.bigEndian_toNat]

theorem IsLifted.lift?_eq (h : k.IsLifted x y) : Point.lift? x = some k.point :=
  Point.lift?_eq_some_iff.2 ⟨y, h.point_eq, FieldElement.isEven_iff.2 h.even,
    FieldElement.mul_self_eq_cubic_iff.2 h.square⟩

theorem isLifted_of_lift? {p : Point} (hx : x.val = b.toNat) (h : Point.lift? x = some p) :
    ∃ y, IsLifted ⟨b, p⟩ x y := by
  obtain ⟨y, hp, heven, hy⟩ := Point.lift?_eq_some_iff.1 h
  exact ⟨y, hp, hx, FieldElement.isEven_iff.1 heven, FieldElement.mul_self_eq_cubic_iff.1 hy⟩

/-- The whole of reading a public key. -/
theorem ofBytes_eq_ok_iff : ofBytes b = .ok k ↔ k.bytes = b ∧ ∃ x y, k.IsLifted x y := by
  constructor
  · intro h
    unfold ofBytes at h
    split_ifs at h with hlt
    split at h
    · rename_i p hp
      obtain rfl := Except.ok.inj h
      exact ⟨rfl, _, isLifted_of_lift? rfl hp⟩
    · cases h
  · rintro ⟨rfl, x, y, h⟩
    have hlt : k.bytes.toNat < prime := h.val_eq ▸ x.lt
    obtain rfl : x = ⟨k.bytes.toNat, hlt⟩ := FieldElement.ext h.val_eq
    rw [ofBytes, dif_pos hlt, h.lift?_eq]

theorem exists_ofBytes_iff : (∃ k, ofBytes b = .ok k) ↔
    b.toNat < prime ∧ ∃ y : ℕ, y ^ 2 ≡ b.toNat ^ 3 + 7 [MOD prime] := by
  constructor
  · rintro ⟨k, hk⟩
    obtain ⟨rfl, x, y, h⟩ := ofBytes_eq_ok_iff.1 hk
    rw [← h.val_eq]
    exact ⟨x.lt, y.val, h.square⟩
  · rintro ⟨hlt, hsquare⟩
    obtain ⟨p, hp⟩ := Point.exists_lift?_iff.2
      (FieldElement.isSquare_cubic_iff (x := ⟨b.toNat, hlt⟩) |>.2 hsquare)
    exact ⟨⟨b, p⟩, ofBytes_eq_ok_iff.2 ⟨rfl, _, isLifted_of_lift? rfl hp⟩⟩

theorem ofSlice_toList (b : ByteVec 32) : ofSlice b.toList = ofBytes b := by
  rw [ofSlice, ByteVec.ofList?_toList]

/-- The point is given by the bytes. -/
theorem IsLifted.eq_of_bytes {x' y' : FieldElement} (h : k.IsLifted x y) (h' : k'.IsLifted x' y')
    (hb : k.bytes = k'.bytes) : k = k' := by
  have hk := ofBytes_eq_ok_iff.2 ⟨hb, x, y, h⟩
  have hk' := ofBytes_eq_ok_iff.2 ⟨rfl, x', y', h'⟩
  exact Except.ok.inj (hk.symm.trans hk')

end SealedMessage.PublicKey
