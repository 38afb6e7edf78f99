import Mathlib
import SealedMessage.Proofs.Curve.Cardinality
import SealedMessage.Proofs.Key.Agreement

/-! What a secret and a public key share is the abscissa of a point of the curve: no way to a public
key leads to a point that a secret scalar takes to infinity. -/

namespace SealedMessage

open Curve WeierstrassCurve

/-- The ways to a public key: it is read, or it belongs to a secret key. -/
inductive PublicKey.IsObtained (k : PublicKey) : Prop where
  | fromBytes (x : ByteVec 32) (h : ofBytes x = .ok k)
  | fromSlice (b : Bytes) (h : ofSlice b = .ok k)
  | fromHex (s : String) (h : ofHex s = .ok k)
  | fromSecret (a : SecretKey) (h : a.publicKey = .ok k)

namespace PublicKey

variable {k : PublicKey}

/-- All of them end where a public key is read from its bytes. -/
theorem IsObtained.exists_ofBytes (h : k.IsObtained) : ∃ x, ofBytes x = .ok k := by
  cases h with
  | fromBytes x h => exact ⟨x, h⟩
  | fromSlice b h =>
    unfold ofSlice at h
    split at h
    · exact ⟨_, h⟩
    · cases h
  | fromHex s h =>
    unfold ofHex at h
    split at h
    · exact ⟨_, h⟩
    · cases h
  | fromSecret a h =>
    unfold SecretKey.publicKey at h
    split at h
    · cases h
    · split at h
      · rename_i hp
        obtain rfl := Except.ok.inj h
        exact ⟨_, hp⟩
      · cases h

theorem IsObtained.exists_isLifted (h : k.IsObtained) : ∃ x y, k.IsLifted x y := by
  obtain ⟨b, hb⟩ := h.exists_ofBytes
  exact (ofBytes_eq_ok_iff.1 hb).2

theorem IsObtained.exists_point (h : k.IsObtained) :
    ∃ Q : curve.Point, Q ≠ 0 ∧ k.point = Point.ofGroup Q := by
  obtain ⟨x, y, hk⟩ := h.exists_isLifted
  obtain ⟨y', hxy, hQ⟩ := Point.exists_some_of_lift? hk.lift?_eq
  exact ⟨.some x y' hxy, Affine.Point.some_ne_zero hxy, hQ⟩

/-- A secret scalar is below the order of every point, and so it takes none of them to infinity.
What is shared is the abscissa of the point's multiple in the group of the curve. -/
theorem IsObtained.exists_nsmul (h : k.IsObtained) (a : SecretKey) :
    ∃ Q : curve.Point, k.point = Point.ofGroup Q ∧ a.scalar • Q ≠ 0 ∧
      sharedX a k = abscissa (a.scalar • Q) := by
  obtain ⟨Q, hne, hQ⟩ := h.exists_point
  exact ⟨Q, hQ, Point.nsmul_ne_zero hne a.pos a.lt, sharedX_eq a ⟨Q, hQ, .inl rfl⟩⟩

theorem IsObtained.exists_scale (h : k.IsObtained) (a : SecretKey) :
    ∃ x y, k.point.scale 256 a.scalar = .affine x y ∧ y * y = cubic x := by
  obtain ⟨Q, hQ, hmul, -⟩ := h.exists_nsmul a
  rw [hQ, Point.scale_ofGroup Q (a.lt.trans order_lt_two_pow)]
  generalize a.scalar • Q = R at hmul
  rcases R with _ | ⟨x, y, hxy⟩
  · exact absurd rfl hmul
  · exact ⟨x, y, rfl, nonsingular_iff.1 hxy⟩

end PublicKey

theorem sharedX_of_scale {a : SecretKey} {k : PublicKey} {x y : FieldElement}
    (h : k.point.scale 256 a.scalar = .affine x y) : sharedX a k = .bigEndian 32 x.val := by
  rw [sharedX, h]

/-- Two secret keys share one abscissa and one conversation key, whichever of the two points over
each public key is the secret's own multiple; and what is shared is always the abscissa of a point,
namely of the public point's multiple by the secret scalar. -/
theorem sharedX_agrees (a b : SecretKey) :
    (∃ A B, a.publicKey = .ok A ∧ b.publicKey = .ok B ∧ sharedX a B = sharedX b A ∧
      ConversationKey.derive a B = ConversationKey.derive b A) ∧
    ∀ k : PublicKey, k.IsObtained →
      (∃ x y, k.point.scale 256 a.scalar = .affine x y ∧ y * y = cubic x ∧
        sharedX a k = .bigEndian 32 x.val) ∧
      ∃ Q : curve.Point, k.point = Point.ofGroup Q ∧ a.scalar • Q ≠ 0 ∧
        sharedX a k = abscissa (a.scalar • Q) := by
  constructor
  · obtain ⟨A, hA, hAa⟩ := a.exists_publicKey
    obtain ⟨B, hB, hBb⟩ := b.exists_publicKey
    exact ⟨A, B, hA, hB, sharedX_comm hAa hBb, ConversationKey.derive_comm hAa hBb⟩
  · intro k hk
    obtain ⟨x, y, hscale, hxy⟩ := hk.exists_scale a
    exact ⟨⟨x, y, hscale, hxy, sharedX_of_scale hscale⟩, hk.exists_nsmul a⟩

/-- The least abscissa of the curve, and secret keys whose multiples of the generator are
opposite. -/
theorem sharedX_agrees_least_abscissa :
    let a : SecretKey := ⟨order - 1, by decide, by decide⟩
    let b : SecretKey := ⟨1, by decide, by decide⟩
    let k : PublicKey := ⟨.bigEndian 32 1, .affine 1 (FieldElement.ofNat
      0x4218f20ae6c646b363db68605822fb14264ca8d2587fdd6fbc750d587e76a7ee)⟩
    (∃ A B, a.publicKey = .ok A ∧ b.publicKey = .ok B ∧ sharedX a B = sharedX b A) ∧
      k.IsObtained ∧
      (∃ x y, k.point.scale 256 a.scalar = .affine x y ∧ sharedX a k = .bigEndian 32 x.val) ∧
      ∃ Q : curve.Point, k.point = Point.ofGroup Q ∧ a.scalar • Q ≠ 0 ∧
        sharedX a k = abscissa (a.scalar • Q) := by
  intro a b k
  have hk : k.IsObtained := .fromBytes (.bigEndian 32 1) (by decide +kernel)
  obtain ⟨⟨A, B, hA, hB, hx, -⟩, hshared⟩ := sharedX_agrees a b
  obtain ⟨⟨x, y, hscale, -, hxy⟩, hmultiple⟩ := hshared k hk
  exact ⟨⟨A, B, hA, hB, hx⟩, hk, ⟨x, y, hscale, hxy⟩, hmultiple⟩

end SealedMessage
