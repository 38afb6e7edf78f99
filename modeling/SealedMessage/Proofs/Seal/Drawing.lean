import Mathlib
import SealedMessage.Proofs.Seal.RoundTrip

/-! What encryption draws: nothing for a message that it refuses and nothing where a nonce is given,
and otherwise one nonce. Once a nonce is drawn, nothing fails any more. -/

namespace SealedMessage

variable {given : Option Nonce} {draws rest : Draws} {n : Nonce} {m : Bytes}

/-- The nonce to encrypt under, and the draws that are left then. -/
inductive Serves : Option Nonce → Draws → Nonce → Draws → Prop
  | given (n : Nonce) (draws : Draws) : Serves (some n) draws n draws
  | drawn (n : Nonce) (rest : Draws) : Serves none (n :: rest) n rest

theorem exists_serves_or (given : Option Nonce) (draws : Draws) :
    (∃ n rest, Serves given draws n rest) ∨ given = none ∧ draws = [] := by
  cases given with
  | some n => exact .inl ⟨n, draws, .given n draws⟩
  | none =>
    cases draws with
    | nil => exact .inr ⟨rfl, rfl⟩
    | cons n rest => exact .inl ⟨n, rest, .drawn n rest⟩

theorem Serves.eq_cons (h : Serves given draws n rest) (hne : rest ≠ draws) :
    given = none ∧ draws = n :: rest := by
  cases h with
  | given => exact absurd rfl hne
  | drawn => exact ⟨rfl, rfl⟩

section

variable (secret : SecretKey) (other : PublicKey)

theorem encryptDrawing_some (n : Nonce) (h₁ : 1 ≤ m.length) (h₂ : m.length ≤ 65535)
    (draws : Draws) :
    encryptDrawing secret other (some n) m draws =
      ((ConversationKey.derive secret other).encrypt n m, draws) := by
  rw [encryptDrawing, Padding.checkLength_of_le h₁ h₂]

theorem encryptDrawing_none (n : Nonce) (h₁ : 1 ≤ m.length) (h₂ : m.length ≤ 65535)
    (rest : Draws) :
    encryptDrawing secret other none m (n :: rest) =
      ((ConversationKey.derive secret other).encrypt n m, rest) := by
  rw [encryptDrawing, Padding.checkLength_of_le h₁ h₂]

theorem encryptDrawing_nil (h₁ : 1 ≤ m.length) (h₂ : m.length ≤ 65535) :
    encryptDrawing secret other none m [] = (.error (.fault .drawsExhausted), []) := by
  rw [encryptDrawing, Padding.checkLength_of_le h₁ h₂]

theorem encryptDrawing_of_not (h : ¬ (1 ≤ m.length ∧ m.length ≤ 65535)) (given : Option Nonce)
    (draws : Draws) :
    encryptDrawing secret other given m draws =
      (Attempt.refuse (.plaintextLength m.length), draws) := by
  rw [encryptDrawing, Padding.checkLength_of_not h]

theorem encryptDrawing_of_serves (h₁ : 1 ≤ m.length) (h₂ : m.length ≤ 65535)
    (h : Serves given draws n rest) :
    encryptDrawing secret other given m draws =
      ((ConversationKey.derive secret other).encrypt n m, rest) := by
  cases h with
  | given => exact encryptDrawing_some secret other n h₁ h₂ draws
  | drawn => exact encryptDrawing_none secret other n h₁ h₂ rest

/-- The ways that encryption can go: refused, encrypted, or out of draws. -/
theorem encryptDrawing_cases (given : Option Nonce) (draws : Draws) (m : Bytes) :
    (¬ (1 ≤ m.length ∧ m.length ≤ 65535) ∧ encryptDrawing secret other given m draws =
      (Attempt.refuse (.plaintextLength m.length), draws)) ∨
    (1 ≤ m.length ∧ m.length ≤ 65535) ∧
      ((∃ n rest s, Serves given draws n rest ∧
        (ConversationKey.derive secret other).encrypt n m = .ok s ∧
        encryptDrawing secret other given m draws = (.ok s, rest)) ∨
      (given = none ∧ draws = []) ∧
        encryptDrawing secret other given m draws = (.error (.fault .drawsExhausted), draws)) := by
  by_cases hm : 1 ≤ m.length ∧ m.length ≤ 65535
  · refine .inr ⟨hm, ?_⟩
    rcases exists_serves_or given draws with ⟨n, rest, h⟩ | ⟨rfl, rfl⟩
    · obtain ⟨s, hs, -⟩ := (ConversationKey.derive secret other).exists_encrypt n hm.1 hm.2
      refine .inl ⟨n, rest, s, h, hs, ?_⟩
      rw [encryptDrawing_of_serves secret other hm.1 hm.2 h, hs]
    · exact .inr ⟨⟨rfl, rfl⟩, encryptDrawing_nil secret other hm.1 hm.2⟩
  · exact .inl ⟨hm, encryptDrawing_of_not secret other hm given draws⟩

/-- Nothing is written between two keys but what is written under their conversation key. -/
theorem encryptDrawing_eq_ok {s : String}
    (h : encryptDrawing secret other given m draws = (.ok s, rest)) :
    ∃ n, (ConversationKey.derive secret other).encrypt n m = .ok s := by
  rcases encryptDrawing_cases secret other given draws m with
    ⟨-, hx⟩ | ⟨-, ⟨n, rest', s', -, hs, hx⟩ | ⟨-, hx⟩⟩
  · cases hx.symm.trans h
  · cases hx.symm.trans h
    exact ⟨n, hs⟩
  · cases hx.symm.trans h

theorem encryptDrawing_eq_fault_iff {f : Fault} :
    (encryptDrawing secret other given m draws).1 = .error (.fault f) ↔
      f = .drawsExhausted ∧ (1 ≤ m.length ∧ m.length ≤ 65535) ∧ given = none ∧ draws = [] := by
  constructor
  · intro h
    rcases encryptDrawing_cases secret other given draws m with
      ⟨-, hx⟩ | ⟨hm, ⟨n, rest, s, -, -, hx⟩ | ⟨hnone, hx⟩⟩
    · rw [hx] at h
      cases h
    · rw [hx] at h
      cases h
    · rw [hx] at h
      cases h
      exact ⟨rfl, hm, hnone⟩
  · rintro ⟨rfl, ⟨h₁, h₂⟩, rfl, rfl⟩
    rw [encryptDrawing_nil secret other h₁ h₂]

/-- A draw that is spent is spent on a message that is encrypted. -/
theorem encryptDrawing_of_draws_ne {x : Attempt String}
    (h : encryptDrawing secret other given m draws = (x, rest)) (hne : rest ≠ draws) :
    given = none ∧ (∃ n, draws = n :: rest) ∧ (1 ≤ m.length ∧ m.length ≤ 65535) ∧
      ∃ s, x = .ok s := by
  rcases encryptDrawing_cases secret other given draws m with
    ⟨-, hx⟩ | ⟨hm, ⟨n, rest', s, hserves, -, hx⟩ | ⟨-, hx⟩⟩
  · cases hx.symm.trans h
    exact absurd rfl hne
  · cases hx.symm.trans h
    obtain ⟨hgiven, hdraws⟩ := hserves.eq_cons hne
    exact ⟨hgiven, ⟨n, hdraws⟩, hm, s, rfl⟩
  · cases hx.symm.trans h
    exact absurd rfl hne

/-- A message that is too short or too long is refused and nothing is drawn. Any other is encrypted
under the nonce that is given, and nothing is drawn, or under the first draw, and no further one is
drawn; only where there is neither does it fail. So a length that was found acceptable before the
draw is not found wanting after it. -/
theorem encryptDrawing_draws_on_need (m : Bytes) :
    (¬ (1 ≤ m.length ∧ m.length ≤ 65535) → ∀ given draws,
      encryptDrawing secret other given m draws =
        (Attempt.refuse (.plaintextLength m.length), draws)) ∧
    (1 ≤ m.length ∧ m.length ≤ 65535 →
      (∀ n draws, encryptDrawing secret other (some n) m draws =
        ((ConversationKey.derive secret other).encrypt n m, draws)) ∧
      (∀ n rest, encryptDrawing secret other none m (n :: rest) =
        ((ConversationKey.derive secret other).encrypt n m, rest)) ∧
      ∀ n, ∃ s, (ConversationKey.derive secret other).encrypt n m = .ok s) ∧
    (∀ given draws f, (encryptDrawing secret other given m draws).1 = .error (.fault f) ↔
      f = .drawsExhausted ∧ (1 ≤ m.length ∧ m.length ≤ 65535) ∧ given = none ∧ draws = []) ∧
    ∀ given draws x rest, encryptDrawing secret other given m draws = (x, rest) → rest ≠ draws →
      given = none ∧ (∃ n, draws = n :: rest) ∧ Padding.pad m = .ok (Padding.frame m) ∧
        ∃ s, x = .ok s := by
  refine ⟨fun h => encryptDrawing_of_not secret other h, ?_,
    fun given draws f => encryptDrawing_eq_fault_iff secret other, ?_⟩
  · rintro ⟨h₁, h₂⟩
    refine ⟨fun n => encryptDrawing_some secret other n h₁ h₂,
      fun n => encryptDrawing_none secret other n h₁ h₂, fun n => ?_⟩
    obtain ⟨s, hs, -⟩ := (ConversationKey.derive secret other).exists_encrypt n h₁ h₂
    exact ⟨s, hs⟩
  · intro given draws x rest h hne
    obtain ⟨hgiven, hdraws, ⟨h₁, h₂⟩, hok⟩ := encryptDrawing_of_draws_ne secret other h hne
    exact ⟨hgiven, hdraws, Padding.pad_of_le h₁ h₂, hok⟩

/-- One of two draws is spent where no nonce is given and none where it is, with one text; without
draws a message cannot be encrypted, and an empty one is refused as ever. -/
theorem encryptDrawing_draws_on_need_two_draws :
    let a : SecretKey := ⟨1, by decide, by decide⟩
    let k : PublicKey := ⟨.bigEndian 32 1, .generator⟩
    let m : Bytes := [104, 105]
    let draws : Draws := [.zeros 32, .bigEndian 32 1]
    (1 ≤ m.length ∧ m.length ≤ 65535) ∧
      (∃ s, encryptDrawing a k none m draws = (.ok s, [.bigEndian 32 1]) ∧
        encryptDrawing a k (some (.zeros 32)) m draws = (.ok s, draws) ∧
        [.bigEndian 32 1] ≠ draws ∧ Padding.pad m = .ok (Padding.frame m)) ∧
      (encryptDrawing a k none m []).1 = .error (.fault .drawsExhausted) ∧
      encryptDrawing a k none [] [] = (Attempt.refuse (.plaintextLength 0), []) := by
  intro a k m draws
  obtain ⟨-, hok, hfault, hspent⟩ := encryptDrawing_draws_on_need a k m
  obtain ⟨hsome, hnone, hs⟩ := hok (by decide)
  obtain ⟨s, hs⟩ := hs (.zeros 32)
  have hdrawn : encryptDrawing a k none m draws = (.ok s, [.bigEndian 32 1]) := by
    rw [hnone, hs]
  have hne : [.bigEndian 32 1] ≠ draws := by decide
  refine ⟨by decide, ⟨s, hdrawn, ?_, hne, (hspent none draws _ _ hdrawn hne).2.2.1⟩,
    (hfault none [] .drawsExhausted).2 ⟨rfl, by decide, rfl, rfl⟩,
    (encryptDrawing_draws_on_need a k []).1 (by decide) none []⟩
  rw [hsome, hs]

end

end SealedMessage
