import Mathlib
import SealedMessage.Key.Conversation
import SealedMessage.Proofs.Curve.Generator
import SealedMessage.Proofs.Key.Lifted

/-! Both ends of a conversation share one key. A public key keeps its point only up to the sign, and
so does the abscissa that is shared, so that the parities of the ordinates do not matter. -/

namespace SealedMessage

open Curve WeierstrassCurve

theorem PublicKey.ofBytes_bigEndian {x : FieldElement} {p : Point} (h : Point.lift? x = some p) :
    PublicKey.ofBytes (.bigEndian 32 x.val) = .ok ⟨.bigEndian 32 x.val, p⟩ := by
  have hval : (ByteVec.bigEndian 32 x.val).toNat = x.val :=
    ByteVec.toNat_bigEndian (x.lt.trans (by decide))
  exact ofBytes_eq_ok_iff.2 ⟨rfl, x, isLifted_of_lift? hval.symm h⟩

/-- The point of the key is `P` up to the sign. -/
def PublicKey.Represents (k : PublicKey) (P : curve.Point) : Prop :=
  ∃ Q, k.point = Point.ofGroup Q ∧ (Q = P ∨ Q = -P)

theorem SecretKey.exists_publicKey (a : SecretKey) :
    ∃ A, a.publicKey = .ok A ∧ A.Represents (a.scalar • Point.base) := by
  have hne := Point.nsmul_base_ne_zero a.pos a.lt
  have hscale := Point.scale_generator (a.lt.trans order_lt_two_pow)
  generalize a.scalar • Point.base = P at hne hscale
  rcases P with _ | ⟨x, y, h⟩
  · exact absurd rfl hne
  · obtain ⟨Q, hlift, hQ⟩ := Point.exists_lift? h
    refine ⟨⟨.bigEndian 32 x.val, Point.ofGroup Q⟩, ?_, Q, rfl, hQ⟩
    unfold publicKey
    rw [hscale, Point.ofGroup]
    dsimp only
    rw [PublicKey.ofBytes_bigEndian hlift]

/-- What is shared of a point: its abscissa, or zeros for the point at infinity. -/
def abscissa : curve.Point → ByteVec 32
  | .zero => .zeros 32
  | .some x _ _ => .bigEndian 32 x.val

theorem abscissa_neg (P : curve.Point) : abscissa (-P) = abscissa P := by
  rcases P with _ | ⟨x, y, h⟩
  · rfl
  · rw [Affine.Point.neg_some]
    simp only [abscissa]

theorem sharedX_eq (a : SecretKey) {B : PublicKey} {P : curve.Point} (h : B.Represents P) :
    sharedX a B = abscissa (a.scalar • P) := by
  obtain ⟨Q, hB, hQ⟩ := h
  have hshared : sharedX a B = abscissa (a.scalar • Q) := by
    unfold sharedX
    rw [hB, Point.scale_ofGroup Q (a.lt.trans order_lt_two_pow)]
    rcases a.scalar • Q with _ | ⟨x, y, h⟩ <;> rfl
  rcases hQ with rfl | rfl
  · exact hshared
  · rw [hshared, neg_nsmul, abscissa_neg]

/-- Each end multiplies what represents the other's multiple of the base by its own scalar. -/
theorem sharedX_comm {a b : SecretKey} {A B : PublicKey}
    (hA : A.Represents (a.scalar • Point.base)) (hB : B.Represents (b.scalar • Point.base)) :
    sharedX a B = sharedX b A := by
  rw [sharedX_eq a hB, sharedX_eq b hA, smul_comm]

theorem ConversationKey.derive_comm {a b : SecretKey} {A B : PublicKey}
    (hA : A.Represents (a.scalar • Point.base)) (hB : B.Represents (b.scalar • Point.base)) :
    derive a B = derive b A := by
  rw [derive, derive, sharedX_comm hA hB]

end SealedMessage
