import Mathlib
import SealedMessage.Proofs.Key.Shared

/-! A public key holds one thing twice, the bytes of an abscissa and a point over it, and the two
agree whichever way the key was obtained. So its bytes stand for the key. -/

namespace SealedMessage

open Curve WeierstrassCurve

namespace PublicKey

variable {k k' : PublicKey} {x y : FieldElement} {P : curve.Point}

theorem IsObtained.eq_iff (h : k.IsObtained) (h' : k'.IsObtained) :
    k = k' ↔ k.bytes = k'.bytes := by
  obtain ⟨x, y, hk⟩ := h.exists_isLifted
  obtain ⟨x', y', hk'⟩ := h'.exists_isLifted
  exact ⟨congrArg bytes, hk.eq_of_bytes hk'⟩

theorem IsObtained.ofBytes_bytes (h : k.IsObtained) : ofBytes k.bytes = .ok k :=
  ofBytes_eq_ok_iff.2 ⟨rfl, h.exists_isLifted⟩

theorem IsObtained.ofSlice_bytes (h : k.IsObtained) : ofSlice k.bytes.toList = .ok k := by
  rw [ofSlice_toList, h.ofBytes_bytes]

/-- The sign that a key forgets does not show in the abscissa. -/
theorem Represents.bytes_eq (h : k.Represents P) (hk : k.IsLifted x y) : k.bytes = abscissa P := by
  obtain ⟨Q, hQ, hsign⟩ := h
  have hbytes : k.bytes = abscissa Q := by
    rw [hk.point_eq] at hQ
    rcases Q with _ | ⟨x', y', hxy⟩
    · cases hQ
    · cases hQ
      exact hk.bytes_eq
  rcases hsign with rfl | rfl
  · exact hbytes
  · rw [hbytes, abscissa_neg]

end PublicKey

theorem SecretKey.exists_publicKey_abscissa (a : SecretKey) :
    ∃ A, a.publicKey = .ok A ∧ A.bytes = abscissa (a.scalar • Point.base) := by
  obtain ⟨A, hA, hrep⟩ := a.exists_publicKey
  obtain ⟨x, y, hk⟩ := (PublicKey.IsObtained.fromSecret a hA).exists_isLifted
  exact ⟨A, hA, hrep.bytes_eq hk⟩

/-- The bytes of an abscissa of the curve are read as a key, and no others are. Every key has over
its abscissa the point with the even ordinate, is told from another by its bytes, and is read from
them again; and the key of a secret is the abscissa of the secret's multiple of the generator. -/
theorem PublicKey.bytes_determine_point :
    (∀ b : ByteVec 32, (∃ k, ofBytes b = .ok k) ↔
      b.toNat < prime ∧ ∃ y : ℕ, y ^ 2 ≡ b.toNat ^ 3 + 7 [MOD prime]) ∧
    (∀ k : PublicKey, k.IsObtained → ∃ x y : FieldElement, k.point = .affine x y ∧
      y.val % 2 = 0 ∧ y.val ^ 2 ≡ x.val ^ 3 + 7 [MOD prime] ∧ k.bytes = .bigEndian 32 x.val) ∧
    (∀ k k' : PublicKey, k.IsObtained → k'.IsObtained → (k = k' ↔ k.bytes = k'.bytes)) ∧
    (∀ k : PublicKey, k.IsObtained → ofSlice k.bytes.toList = .ok k) ∧
    ∀ a : SecretKey, ∃ A x y h, a.publicKey = .ok A ∧
      a.scalar • Point.base = .some x y h ∧ A.bytes = .bigEndian 32 x.val := by
  refine ⟨fun b => exists_ofBytes_iff, ?_, fun k k' h h' => h.eq_iff h',
    fun k h => h.ofSlice_bytes, ?_⟩
  · intro k h
    obtain ⟨x, y, hk⟩ := h.exists_isLifted
    exact ⟨x, y, hk.point_eq, hk.even, hk.square, hk.bytes_eq⟩
  · intro a
    obtain ⟨A, hA, hbytes⟩ := a.exists_publicKey_abscissa
    have hne := Point.nsmul_base_ne_zero a.pos a.lt
    generalize a.scalar • Point.base = P at hbytes hne
    rcases P with _ | ⟨x, y, h⟩
    · exact absurd rfl hne
    · exact ⟨A, x, y, h, hA, rfl, hbytes⟩

/-- The key of the least abscissa; and over an abscissa of five there is no point, because 132 is no
square. -/
theorem PublicKey.bytes_determine_point_one :
    let k : PublicKey := ⟨.bigEndian 32 1, .affine 1 (FieldElement.ofNat
      0x4218f20ae6c646b363db68605822fb14264ca8d2587fdd6fbc750d587e76a7ee)⟩
    k.IsObtained ∧ ofSlice k.bytes.toList = .ok k ∧
      (∃ x y : FieldElement, k.point = .affine x y ∧ y.val % 2 = 0 ∧
        y.val ^ 2 ≡ x.val ^ 3 + 7 [MOD prime]) ∧
      ofBytes (.bigEndian 32 5) = .error (.badKey .publicOffCurve) ∧
      ¬ ∃ y : ℕ, y ^ 2 ≡ 5 ^ 3 + 7 [MOD prime] := by
  intro k
  obtain ⟨hread, hpoint, -, hslice, -⟩ := PublicKey.bytes_determine_point
  have hk : k.IsObtained := .fromBytes (.bigEndian 32 1) (by decide +kernel)
  have hfive : ofBytes (.bigEndian 32 5) = .error (.badKey .publicOffCurve) := by decide +kernel
  obtain ⟨x, y, hxy, heven, hsquare, -⟩ := hpoint k hk
  refine ⟨hk, hslice k hk, ⟨x, y, hxy, heven, hsquare⟩, hfive, fun hroot => ?_⟩
  have hval : (ByteVec.bigEndian 32 5).toNat = 5 := ByteVec.toNat_bigEndian (by decide)
  obtain ⟨k', hk'⟩ := (hread (.bigEndian 32 5)).2 (by rw [hval]; exact ⟨by decide, hroot⟩)
  rw [hfive] at hk'
  cases hk'

end SealedMessage
