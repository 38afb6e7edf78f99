import Mathlib
import SealedMessage.Proofs.Key.Invariant
import SealedMessage.Proofs.Key.Scalar
import SealedMessage.Proofs.Text.Hexadecimal

/-! Keys as texts: 64 hexadecimal digits between blanks are read as the 32 bytes that they spell,
and every other text is refused. A key is read from each of its spellings. -/

namespace SealedMessage

open Curve Text

variable {s t w₁ w₂ : String} {b : Bytes} {v : ByteVec 32}

theorem ByteVec.ofList?_eq_some_iff {n : ℕ} {v : ByteVec n} :
    ofList? n b = some v ↔ b = v.toList := by
  constructor
  · intro h
    unfold ofList? at h
    split_ifs at h
    obtain rfl := Option.some.inj h
    rfl
  · rintro rfl
    exact ofList?_toList v

namespace Text

/-- The text is 64 hexadecimal digits, with nothing but blanks around them. -/
def IsKeyText (s : String) : Prop :=
  (trim s).toList.length = 64 ∧ ∀ c ∈ (trim s).toList, ∃ n, Hex.IsDigit c n

theorem IsKeyText.exists_spells (h : IsKeyText s) :
    ∃ b, b.length = 32 ∧ Hex.Spells (trim s).toList b :=
  Hex.exists_spells h.1 h.2

theorem Hex.Spells.isKeyText (h : Hex.Spells (trim s).toList b) (hb : b.length = 32) :
    IsKeyText s :=
  ⟨by rw [h.length_eq, hb], h.exists_isDigit⟩

theorem Hex.Spells.trim_append (h : Hex.Spells t.toList b)
    (h₁ : ∀ c ∈ w₁.toList, isBlank c = true) (h₂ : ∀ c ∈ w₂.toList, isBlank c = true) :
    trim (w₁ ++ t ++ w₂) = t := by
  rw [Text.trim_append t h₁ h₂, trim_eq_self h.isBlank_eq_false]

/-- Both kinds of keys begin by reading their text so. -/
theorem keyBytes_eq_some_iff :
    (Hex.decode? (utf8 (trim s))).bind (ByteVec.ofList? 32) = some v ↔
      Hex.Spells (trim s).toList v.toList := by
  rw [Option.bind_eq_some_iff]
  constructor
  · rintro ⟨b, hb, hv⟩
    obtain rfl := ByteVec.ofList?_eq_some_iff.1 hv
    exact Hex.decode?_utf8_eq_some_iff.1 hb
  · intro h
    exact ⟨v.toList, Hex.decode?_utf8_eq_some_iff.2 h, ByteVec.ofList?_toList v⟩

theorem keyBytes_eq_none (h : ¬ IsKeyText s) :
    (Hex.decode? (utf8 (trim s))).bind (ByteVec.ofList? 32) = none := by
  apply Option.eq_none_iff_forall_ne_some.2
  intro v hv
  exact h ((keyBytes_eq_some_iff.1 hv).isKeyText v.length_eq)

end Text

namespace SecretKey

theorem ofSlice_eq_ok_iff {a : SecretKey} : ofSlice b = .ok a ↔ a.toBytes.toList = b := by
  constructor
  · intro h
    unfold ofSlice at h
    split at h
    · rename_i v hv
      rw [ByteVec.ofList?_eq_some_iff.1 hv, ofBytes_eq_ok_iff.1 h]
    · cases h
  · rintro rfl
    rw [ofSlice_toList, ofBytes_toBytes]

theorem exists_ofSlice_iff : (∃ a, ofSlice b = .ok a) ↔ b.length = 32 ∧ IsScalar b := by
  constructor
  · rintro ⟨a, ha⟩
    rw [← ofSlice_eq_ok_iff.1 ha]
    exact ⟨a.toBytes.length_eq, a.isScalar_toBytes⟩
  · rintro ⟨hlength, hscalar⟩
    obtain ⟨a, -, ha⟩ := exists_ofBytes (d := ⟨b, hlength⟩) hscalar
    exact ⟨a, ofSlice_eq_ok_iff.2 (congrArg ByteVec.toList ha)⟩

theorem ofHex_of_spells (h : Hex.Spells (trim s).toList v.toList) :
    ofHex s = ofSlice v.toList := by
  rw [ofHex, keyBytes_eq_some_iff.2 h, ofSlice_toList]

theorem ofHex_of_not (h : ¬ IsKeyText s) : ofHex s = .error (.badKey .secretHex) := by
  rw [ofHex, keyBytes_eq_none h]

theorem ofHex_spelling {a : SecretKey} (h : Hex.Spells (trim s).toList a.toBytes.toList) :
    ofHex s = .ok a := by
  rw [ofHex_of_spells h, ofSlice_toList, ofBytes_toBytes]

end SecretKey

namespace PublicKey

theorem ofHex_of_spells (h : Hex.Spells (trim s).toList v.toList) :
    ofHex s = ofSlice v.toList := by
  rw [ofHex, keyBytes_eq_some_iff.2 h, ofSlice_toList]

theorem ofHex_of_not (h : ¬ IsKeyText s) : ofHex s = .error (.badKey .publicHex) := by
  rw [ofHex, keyBytes_eq_none h]

theorem IsObtained.ofHex_spelling {k : PublicKey} (hk : k.IsObtained)
    (h : Hex.Spells (trim s).toList k.bytes.toList) : ofHex s = .ok k := by
  rw [ofHex_of_spells h, hk.ofSlice_bytes]

theorem spells_toHex (k : PublicKey) : Hex.Spells k.toHex.toList k.bytes.toList :=
  Hex.spells_text _

end PublicKey

/-- A text of 64 hexadecimal digits is read as the bytes that it spells, with the same key or the
same refusal, and any other text is refused as no such text. A key that was accepted is read from
all its spellings, in either case and between any blanks. -/
theorem keys_read_alike :
    (∀ s : String, IsKeyText s → ∃ b, b.length = 32 ∧ Hex.Spells (trim s).toList b) ∧
    (∀ (s : String) (b : Bytes), b.length = 32 → Hex.Spells (trim s).toList b →
      SecretKey.ofHex s = SecretKey.ofSlice b ∧ PublicKey.ofHex s = PublicKey.ofSlice b) ∧
    (∀ s : String, ¬ IsKeyText s → SecretKey.ofHex s = .error (.badKey .secretHex) ∧
      PublicKey.ofHex s = .error (.badKey .publicHex)) ∧
    KeyDefect.secretHex.message = "secret key is not 64 hex characters" ∧
    KeyDefect.publicHex.message = "public key is not 64 hex characters" ∧
    (∀ b : Bytes, (∃ a, SecretKey.ofSlice b = .ok a) ↔
      b.length = 32 ∧ 0 < b.toNat ∧ b.toNat < order) ∧
    (∀ (b : Bytes) (a : SecretKey), SecretKey.ofSlice b = .ok a → a.toBytes.toList = b) ∧
    (∀ k : PublicKey, Hex.Spells k.toHex.toList k.bytes.toList) ∧
    ∀ t w₁ w₂ : String, (∀ c ∈ w₁.toList, isBlank c = true) →
      (∀ c ∈ w₂.toList, isBlank c = true) →
      (∀ a : SecretKey, Hex.Spells t.toList a.toBytes.toList →
        SecretKey.ofHex (w₁ ++ t ++ w₂) = .ok a) ∧
      ∀ k : PublicKey, k.IsObtained → Hex.Spells t.toList k.bytes.toList →
        PublicKey.ofHex (w₁ ++ t ++ w₂) = .ok k := by
  refine ⟨fun s h => h.exists_spells, ?_, fun s h => ⟨SecretKey.ofHex_of_not h,
    PublicKey.ofHex_of_not h⟩, rfl, rfl, fun b => SecretKey.exists_ofSlice_iff,
    fun b a => SecretKey.ofSlice_eq_ok_iff.1, fun k => k.spells_toHex, ?_⟩
  · intro s b hlength h
    exact ⟨SecretKey.ofHex_of_spells (v := ⟨b, hlength⟩) h,
      PublicKey.ofHex_of_spells (v := ⟨b, hlength⟩) h⟩
  · intro t w₁ w₂ h₁ h₂
    constructor
    · intro a h
      exact SecretKey.ofHex_spelling (by rwa [h.trim_append h₁ h₂])
    · intro k hk h
      exact hk.ofHex_spelling (by rwa [h.trim_append h₁ h₂])

/-- The abscissa of the generator with its digits in both cases, and a letter of two bytes that
makes a text of 64 bytes and 63 characters. -/
theorem keys_read_alike_generator :
    let t := "79BE667EF9DCBBAC55A06295CE870B07029bfcdb2dce28d959f2815b16f81798"
    let short := "79BE667EF9DCBBAC55A06295CE870B07029bfcdb2dce28d959f2815b16f817\u00e9"
    let a : SecretKey := ⟨0x79be667ef9dcbbac55a06295ce870b07029bfcdb2dce28d959f2815b16f81798,
      by decide, by decide⟩
    let k : PublicKey := ⟨a.toBytes, .generator⟩
    k.IsObtained ∧ Hex.Spells t.toList k.bytes.toList ∧
      SecretKey.ofHex ("\u2003" ++ t ++ "\n") = .ok a ∧
      PublicKey.ofHex ("\u2003" ++ t ++ "\n") = .ok k ∧
      SecretKey.ofHex t = SecretKey.ofSlice k.bytes.toList ∧
      (utf8 short).length = 64 ∧ ¬ IsKeyText short ∧
      PublicKey.ofHex short = .error (.badKey .publicHex) := by
  intro t short a k
  obtain ⟨-, hspells, hother, -, -, -, -, -, hblank⟩ := keys_read_alike
  have hk : k.IsObtained := .fromBytes k.bytes (by decide +kernel)
  have ht : Hex.Spells t.toList k.bytes.toList :=
    Hex.decode?_utf8_eq_some_iff.1 (by decide +kernel)
  have htrim : trim t = t := trim_eq_self ht.isBlank_eq_false
  have hshort : ¬ IsKeyText short := fun h => absurd h.1 (by decide +kernel)
  obtain ⟨hsecret, hpublic⟩ := hblank t "\u2003" "\n" (by simp [isBlank]) (by simp [isBlank])
  exact ⟨hk, ht, hsecret a ht, hpublic k hk ht,
    (hspells t k.bytes.toList k.bytes.length_eq (by rwa [htrim])).1, by decide +kernel, hshort,
    (hother short hshort).2⟩

end SealedMessage
