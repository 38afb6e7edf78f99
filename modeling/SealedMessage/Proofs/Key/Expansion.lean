import Mathlib
import SealedMessage.Proofs.Key.Derivation

/-! Message keys are consecutive pieces of one expansion. The expansion is a chain of macs, and the
pieces neither overlap nor leave anything out, although the last of them crosses from one mac to the
next. -/

namespace SealedMessage

namespace Hkdf

variable (key info : Bytes)

/-- The macs of the expansion by their number: each is of the one before it, the info and its own
number. -/
def chained : ℕ → Bytes
  | 0 => []
  | i + 1 => (Hmac.mac key (chained i ++ info ++ [UInt8.ofNat (i + 1)])).toList

@[simp] theorem length_chained_succ (i : ℕ) : (chained key info (i + 1)).length = 32 := by
  rw [chained, ByteVec.length_eq]

theorem blocks_eq_flatMap (count i : ℕ) :
    blocks key info count (i + 1) (chained key info i) =
      (List.range' (i + 1) count).flatMap (chained key info) := by
  induction count generalizing i with
  | zero => rfl
  | succ count ih =>
    rw [List.range'_succ, List.flatMap_cons, ← ih (i + 1)]
    rfl

variable {key}

/-- The first bytes of the macs one behind the other, as many as are asked for. -/
theorem expand?_eq {n : ℕ} (hk : 32 ≤ key.length) (hn : n ≤ 255 * 32) :
    expand? key info n =
      some (((List.range' 1 ((n + 31) / 32)).flatMap (chained key info)).take n) := by
  rw [expand?, if_neg (by omega), ← blocks_eq_flatMap, chained]

end Hkdf

namespace MessageKeys

variable {keys : MessageKeys}

/-- The sizes of the keys say where one ends and the next begins. -/
theorem eq_of_toBytes_eq {a b c : Bytes} (ha : a.length = 32) (hb : b.length = 12)
    (h : keys.toBytes = a ++ (b ++ c)) :
    keys.cipherKey.toList = a ∧ keys.cipherNonce.toList = b ∧ keys.authKey.toList = c := by
  rw [toBytes, List.append_assoc] at h
  obtain ⟨hkey, hrest⟩ := List.append_inj h (keys.cipherKey.length_eq.trans ha.symm)
  obtain ⟨hnonce, hauth⟩ := List.append_inj hrest (keys.cipherNonce.length_eq.trans hb.symm)
  exact ⟨hkey, hnonce, hauth⟩

theorem take_three_macs {t₁ t₂ t₃ : Bytes} (h₁ : t₁.length = 32) (h₂ : t₂.length = 32) :
    (t₁ ++ t₂ ++ t₃).take 76 = t₁ ++ (t₂.take 12 ++ (t₂.drop 12 ++ t₃.take 12)) := by
  have h : 76 = (t₁ ++ t₂).length + 12 := by rw [List.length_append, h₁, h₂]
  rw [h, List.take_length_add_append, List.append_assoc, ← List.append_assoc (t₂.take 12),
    List.take_append_drop]

theorem exists_derive_macs (k : ConversationKey) (nonce : Nonce) :
    ∃ keys, derive k nonce = .ok keys ∧
      keys.toBytes = (Hkdf.chained k.bytes.toList nonce.toList 1 ++
        Hkdf.chained k.bytes.toList nonce.toList 2 ++
        Hkdf.chained k.bytes.toList nonce.toList 3).take 76 := by
  obtain ⟨keys, hk, hout⟩ := exists_derive_toBytes k nonce
  rw [Hkdf.expand?_eq nonce.toList k.bytes.length_eq.ge (by decide)] at hout
  refine ⟨keys, hk, (Option.some.inj hout).symm.trans ?_⟩
  simp [expandedSize_eq, List.range'_succ]

/-- The expansion has three macs of 32 bytes each, and the keys are what lies before its byte 32,
from there to its byte 44, and from there to its byte 76. -/
theorem derive_partitions_expansion (k : ConversationKey) (nonce : Nonce) :
    let t := Hkdf.chained k.bytes.toList nonce.toList
    ∃ keys, derive k nonce = .ok keys ∧
      keys.cipherKey.toList ++ keys.cipherNonce.toList ++ keys.authKey.toList =
        (t 1 ++ t 2 ++ t 3).take 76 ∧
      keys.cipherKey.toList = t 1 ∧ keys.cipherNonce.toList = (t 2).take 12 ∧
      keys.authKey.toList = (t 2).drop 12 ++ (t 3).take 12 := by
  intro t
  have h₁ : (t 1).length = 32 := Hkdf.length_chained_succ _ _ 0
  have h₂ : (t 2).length = 32 := Hkdf.length_chained_succ _ _ 1
  have hpart : ((t 2).take 12).length = 12 := by rw [List.length_take, h₂]; rfl
  obtain ⟨keys, hk, hbytes⟩ := exists_derive_macs k nonce
  exact ⟨keys, hk, hbytes, eq_of_toBytes_eq h₁ hpart (hbytes.trans (take_three_macs h₁ h₂))⟩

end MessageKeys

end SealedMessage
