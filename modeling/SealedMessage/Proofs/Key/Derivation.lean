import Mathlib
import SealedMessage.Key.Message

/-! Message keys can always be derived: the expansion has a block for every byte asked for, and the
three keys share out all of it, in their order. -/

namespace SealedMessage

theorem Hkdf.length_blocks (key info : Bytes) (count i : ℕ) (before : Bytes) :
    (blocks key info count i before).length = 32 * count := by
  induction count generalizing i before with
  | zero => rfl
  | succ count ih =>
    rw [blocks, List.length_append, ih, ByteVec.length_eq]
    omega

theorem Hkdf.exists_expand? {key : Bytes} (info : Bytes) {n : ℕ} (hk : key.length = 32)
    (hn : n ≤ 255 * 32) : ∃ out, expand? key info n = some out ∧ out.length = n := by
  refine ⟨_, if_neg (by omega), ?_⟩
  rw [List.length_take, length_blocks]
  omega

namespace MessageKeys

/-- The keys in the order in which they are taken out of the expansion. -/
def toBytes (keys : MessageKeys) : Bytes :=
  keys.cipherKey.toList ++ keys.cipherNonce.toList ++ keys.authKey.toList

theorem expandedSize_eq : expandedSize = 76 := rfl

theorem exists_split {out : Bytes} (h : out.length = expandedSize) :
    ∃ keys, split out = .ok keys ∧ keys.toBytes = out := by
  have hl : out.length = 76 := h.trans expandedSize_eq
  have hkey : (out.take 32).length = 32 := by rw [List.length_take]; omega
  have hnonce : ((out.drop 32).take 12).length = 12 := by
    rw [List.length_take, List.length_drop]
    omega
  have hauth : (out.drop 44).length = 32 := by rw [List.length_drop]; omega
  -- the three slices, each as long as the key that is copied out of it
  have h₁ : out.slice 0 32 = .ok (out.take 32) := Bytes.slice_of_le (by omega) (by omega)
  have h₂ : out.slice 32 44 = .ok ((out.drop 32).take 12) :=
    Bytes.slice_of_le (by omega) (by omega)
  have h₃ : out.slice 44 out.length = .ok (out.drop 44) := by
    rw [Bytes.slice_of_le (by omega) le_rfl, List.take_of_length_le List.length_drop.le]
  refine ⟨⟨⟨_, hkey⟩, ⟨_, hnonce⟩, ⟨_, hauth⟩⟩, ?_, ?_⟩
  · unfold split
    dsimp only [Sizes.cipherKey, Sizes.cipherNonce]
    rw [h₁, ok_bind, ByteVec.copy_of_length hkey, ok_bind, h₂, ok_bind,
      ByteVec.copy_of_length hnonce, ok_bind, h₃, ok_bind, ByteVec.copy_of_length hauth]
    rfl
  · have hdrop : out.drop 44 = (out.drop 32).drop 12 := by rw [List.drop_drop]
    simp only [toBytes]
    rw [hdrop, List.append_assoc, List.take_append_drop, List.take_append_drop]

theorem exists_derive_toBytes (k : ConversationKey) (nonce : Nonce) :
    ∃ keys, derive k nonce = .ok keys ∧
      Hkdf.expand? k.bytes.toList nonce.toList expandedSize = some keys.toBytes := by
  obtain ⟨out, ho, hl⟩ := Hkdf.exists_expand? nonce.toList k.bytes.length_eq
    (by decide : expandedSize ≤ 255 * 32)
  obtain ⟨keys, hk, rfl⟩ := exists_split hl
  refine ⟨keys, ?_, ho⟩
  rw [derive, ho]
  exact hk

theorem exists_derive (k : ConversationKey) (nonce : Nonce) :
    ∃ keys, derive k nonce = .ok keys := by
  obtain ⟨keys, hk, -⟩ := exists_derive_toBytes k nonce
  exact ⟨keys, hk⟩

end MessageKeys

end SealedMessage
