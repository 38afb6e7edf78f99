import Mathlib
import SealedMessage.Proofs.Key.Scalar
import SealedMessage.Proofs.Key.Shared
import SealedMessage.Seal

/-! A secret key and its opposite, whose scalars add up to the order, have one public key and share
one abscissa with every public key. No third secret key has that public key. -/

namespace SealedMessage

open Curve WeierstrassCurve

theorem PublicKey.Represents.eq_or_eq_neg {k : PublicKey} {P P' : curve.Point}
    (h : k.Represents P) (h' : k.Represents P') : P = P' ∨ P = -P' := by
  obtain ⟨Q, hk, hQ⟩ := h
  obtain ⟨Q', hk', hQ'⟩ := h'
  obtain rfl := Point.ofGroup_injective (hk.symm.trans hk')
  rcases hQ with rfl | hQ
  · exact hQ'
  · rcases hQ' with rfl | hQ'
    · exact .inr (neg_eq_iff_eq_neg.1 hQ.symm)
    · exact .inl (neg_injective (hQ.symm.trans hQ'))

namespace SecretKey

variable {a b : SecretKey}

/-- The key of the opposite multiples. -/
def opposite (a : SecretKey) : SecretKey :=
  ⟨order - a.scalar, Nat.sub_pos_of_lt a.lt, Nat.sub_lt (a.pos.trans a.lt) a.pos⟩

theorem opposite_nsmul (a : SecretKey) (P : curve.Point) :
    a.opposite.scalar • P = -(a.scalar • P) :=
  Point.order_sub_nsmul P a.lt.le

/-- A public key keeps nothing of the secret's multiple of the generator but the abscissa. -/
theorem publicKey_eq_of_abscissa
    (h : abscissa (a.scalar • Point.base) = abscissa (b.scalar • Point.base)) :
    a.publicKey = b.publicKey := by
  have ha := Point.nsmul_base_ne_zero a.pos a.lt
  have hb := Point.nsmul_base_ne_zero b.pos b.lt
  unfold publicKey
  rw [Point.scale_generator (a.lt.trans order_lt_two_pow),
    Point.scale_generator (b.lt.trans order_lt_two_pow)]
  generalize a.scalar • Point.base = P at ha h ⊢
  generalize b.scalar • Point.base = Q at hb h ⊢
  rcases P with _ | ⟨x, y, hP⟩
  · exact absurd rfl ha
  rcases Q with _ | ⟨x', y', hQ⟩
  · exact absurd rfl hb
  simp only [abscissa] at h
  simp only [Point.ofGroup, h]

theorem publicKey_eq_iff : a.publicKey = b.publicKey ↔ a = b ∨ a.scalar + b.scalar = order := by
  have hopposite := Point.nsmul_eq_neg_nsmul_iff Point.base_ne_zero a.lt b.pos b.lt
  constructor
  · intro h
    obtain ⟨A, hA, hAa⟩ := a.exists_publicKey
    obtain ⟨B, hB, hBb⟩ := b.exists_publicKey
    obtain rfl : A = B := Except.ok.inj (hA.symm.trans (h.trans hB))
    rcases hAa.eq_or_eq_neg hBb with he | he
    · exact .inl (eq_of_scalar ((Point.nsmul_eq_nsmul_iff Point.base_ne_zero a.lt b.lt).1 he))
    · exact .inr (hopposite.1 he)
  · rintro (rfl | h)
    · rfl
    · apply publicKey_eq_of_abscissa
      rw [hopposite.2 h, abscissa_neg]

theorem publicKey_opposite (a : SecretKey) : a.opposite.publicKey = a.publicKey :=
  publicKey_eq_iff.2 (.inr (Nat.sub_add_cancel a.lt.le))

end SecretKey

theorem sharedX_opposite (a : SecretKey) {k : PublicKey} (hk : k.IsObtained) :
    sharedX a.opposite k = sharedX a k := by
  obtain ⟨Q, -, hQ⟩ := hk.exists_point
  have hrep : k.Represents Q := ⟨Q, hQ, .inl rfl⟩
  rw [sharedX_eq a hrep, sharedX_eq a.opposite hrep, a.opposite_nsmul, abscissa_neg]

theorem ConversationKey.derive_opposite (a : SecretKey) {k : PublicKey} (hk : k.IsObtained) :
    derive a.opposite k = derive a k := by
  rw [derive, derive, sharedX_opposite a hk]

/-- The difference between the order and a secret key is a secret key, and nothing that is computed
from the one tells it from the other; and a public key belongs to these two alone. -/
theorem SecretKey.opposite_indistinguishable (a : SecretKey) :
    SecretKey.ofBytes (.bigEndian 32 (order - a.scalar)) = .ok a.opposite ∧
    (∃ A, a.publicKey = .ok A ∧ a.opposite.publicKey = .ok A) ∧
    (∀ k : PublicKey, k.IsObtained →
      sharedX a k = sharedX a.opposite k ∧
      ConversationKey.derive a k = ConversationKey.derive a.opposite k ∧
      ∀ (nonce : Option Nonce) (m : Bytes) (draws : Draws),
        encryptDrawing a k nonce m draws = encryptDrawing a.opposite k nonce m draws) ∧
    ∀ b : SecretKey, a.publicKey = b.publicKey ↔ a = b ∨ a.scalar + b.scalar = order := by
  refine ⟨ofBytes_toBytes a.opposite, ?_, ?_, fun b => publicKey_eq_iff⟩
  · obtain ⟨A, hA, -⟩ := a.exists_publicKey
    exact ⟨A, hA, a.publicKey_opposite.trans hA⟩
  · intro k hk
    have hderive := ConversationKey.derive_opposite a hk
    refine ⟨(sharedX_opposite a hk).symm, hderive.symm, fun nonce m draws => ?_⟩
    rw [encryptDrawing, encryptDrawing, hderive]

/-- The scalar one and its opposite, the order's predecessor, and what they write to the public key
that both of them have. -/
theorem SecretKey.opposite_indistinguishable_one :
    let a : SecretKey := ⟨1, by decide, by decide⟩
    let b : SecretKey := ⟨order - 1, by decide, by decide⟩
    ∃ A, a.publicKey = .ok A ∧ b.publicKey = .ok A ∧ A.IsObtained ∧ sharedX a A = sharedX b A ∧
      ConversationKey.derive a A = ConversationKey.derive b A ∧
      encrypt a A (.zeros 32) [104, 105] = encrypt b A (.zeros 32) [104, 105] := by
  intro a b
  obtain ⟨-, ⟨A, ha, hb⟩, hsame, -⟩ := SecretKey.opposite_indistinguishable a
  have hA : A.IsObtained := .fromSecret a ha
  obtain ⟨hx, hk, hencrypt⟩ := hsame A hA
  exact ⟨A, ha, hb, hA, hx, hk, congrArg Prod.fst (hencrypt (some (.zeros 32)) [104, 105] [])⟩

end SealedMessage
