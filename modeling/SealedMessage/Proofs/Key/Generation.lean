import Mathlib
import SealedMessage.Proofs.Key.Scalar

/-! A secret key is drawn by rejection: draws that are no scalar are passed over, and the first one
that is a scalar is the key. Nothing behind it is drawn. -/

namespace SealedMessage.SecretKey

open Curve

variable {a : SecretKey} {d : ByteVec 32} {draws rest skipped : Draws}

theorem generate_of_ofBytes (h : ofBytes d = .ok a) (draws : Draws) :
    generate (d :: draws) = (.ok a, draws) := by
  rw [generate, h]

theorem generate_of_not (h : ¬ IsScalar d.toList) (draws : Draws) :
    generate (d :: draws) = generate draws := by
  rw [generate, ofBytes_of_not h]

/-- However many draws are passed over, they leave no trace but that they are gone. -/
theorem generate_append (h : ∀ d ∈ skipped, ¬ IsScalar d.toList) (draws : Draws) :
    generate (skipped ++ draws) = generate draws := by
  induction skipped with
  | nil => rfl
  | cons d skipped ih =>
    rw [List.forall_mem_cons] at h
    rw [List.cons_append, generate_of_not h.1, ih h.2]

theorem generate_of_forall_not (h : ∀ d ∈ draws, ¬ IsScalar d.toList) :
    generate draws = (.error .drawsExhausted, []) := by
  have hnil := generate_append h []
  rwa [List.append_nil] at hnil

/-- Either all draws are passed over, or one of them is the key. -/
theorem generate_cases (draws : Draws) :
    (∀ d ∈ draws, ¬ IsScalar d.toList) ∧ generate draws = (.error .drawsExhausted, []) ∨
      ∃ skipped a rest, draws = skipped ++ a.toBytes :: rest ∧
        (∀ d ∈ skipped, ¬ IsScalar d.toList) ∧ generate draws = (.ok a, rest) := by
  induction draws with
  | nil => exact .inl ⟨nofun, rfl⟩
  | cons d draws ih =>
    by_cases hd : IsScalar d.toList
    · obtain ⟨a, ha, rfl⟩ := exists_ofBytes hd
      exact .inr ⟨[], a, draws, rfl, nofun, generate_of_ofBytes ha draws⟩
    · rw [generate_of_not hd]
      rcases ih with ⟨hnone, hg⟩ | ⟨skipped, a, rest, rfl, hskipped, hg⟩
      · exact .inl ⟨List.forall_mem_cons.2 ⟨hd, hnone⟩, hg⟩
      · exact .inr ⟨d :: skipped, a, rest, rfl, List.forall_mem_cons.2 ⟨hd, hskipped⟩, hg⟩

theorem generate_eq_ok_iff :
    generate draws = (.ok a, rest) ↔ ∃ skipped : Draws, draws = skipped ++ a.toBytes :: rest ∧
      ∀ d ∈ skipped, ¬ IsScalar d.toList := by
  constructor
  · intro h
    rcases generate_cases draws with ⟨-, hg⟩ | ⟨skipped, b, rest', hdraws, hskipped, hg⟩
    · cases hg.symm.trans h
    · cases hg.symm.trans h
      exact ⟨skipped, hdraws, hskipped⟩
  · rintro ⟨skipped, rfl, hskipped⟩
    rw [generate_append hskipped, generate_of_ofBytes a.ofBytes_toBytes]

theorem forall_not_of_generate {f : Fault} (h : generate draws = (.error f, rest)) :
    f = .drawsExhausted ∧ rest = [] ∧ ∀ d ∈ draws, ¬ IsScalar d.toList := by
  rcases generate_cases draws with ⟨hnone, hg⟩ | ⟨_, _, _, -, -, hg⟩
  · cases hg.symm.trans h
    exact ⟨rfl, rfl, hnone⟩
  · cases hg.symm.trans h

/-- The draw at `i` is the scalar `d`, and no draw before it is a scalar. -/
structure IsFirstScalar (draws : Draws) (i : ℕ) (d : ByteVec 32) : Prop where
  drawn : draws[i]? = some d
  isScalar : IsScalar d.toList
  not_before : ∀ e ∈ draws.take i, ¬ IsScalar e.toList

theorem IsFirstScalar.eq_append {i : ℕ} (h : IsFirstScalar draws i d) :
    draws = draws.take i ++ d :: draws.drop (i + 1) := by
  obtain ⟨hi, hd⟩ := List.getElem?_eq_some_iff.1 h.drawn
  rw [← hd, List.getElem_cons_drop, List.take_append_drop]

theorem isFirstScalar_length (h : ∀ d ∈ skipped, ¬ IsScalar d.toList) (a : SecretKey)
    (rest : Draws) : IsFirstScalar (skipped ++ a.toBytes :: rest) skipped.length a.toBytes where
  drawn := by rw [List.getElem?_append_right le_rfl, Nat.sub_self, List.getElem?_cons_zero]
  isScalar := a.isScalar_toBytes
  not_before := by rwa [List.take_left]

/-- The first draw that is a scalar is the key, and everything behind it is left. If there is none,
all draws are gone and there is no key. -/
theorem generate_takes_first_scalar (draws : Draws) :
    (∀ i d, IsFirstScalar draws i d →
      ∃ a, generate draws = (.ok a, draws.drop (i + 1)) ∧ a.toBytes = d) ∧
    ((∀ d ∈ draws, ¬ IsScalar d.toList) → generate draws = (.error .drawsExhausted, [])) ∧
    (∀ a rest, generate draws = (.ok a, rest) →
      (0 < a.toBytes.toNat ∧ a.toBytes.toNat < order) ∧
      ∃ i, IsFirstScalar draws i a.toBytes ∧ rest = draws.drop (i + 1)) ∧
    ∀ f rest, generate draws = (.error f, rest) →
      f = .drawsExhausted ∧ rest = [] ∧ ∀ d ∈ draws, ¬ IsScalar d.toList := by
  refine ⟨?_, generate_of_forall_not, ?_, fun f rest => forall_not_of_generate⟩
  · intro i d h
    obtain ⟨a, -, rfl⟩ := exists_ofBytes h.isScalar
    exact ⟨a, generate_eq_ok_iff.2 ⟨draws.take i, h.eq_append, h.not_before⟩, rfl⟩
  · intro a rest h
    obtain ⟨skipped, rfl, hskipped⟩ := generate_eq_ok_iff.1 h
    refine ⟨a.isScalar_toBytes, skipped.length, isFirstScalar_length hskipped a rest, ?_⟩
    rw [List.drop_length_add_append, List.drop_one, List.tail_cons]

/-- A draw of zero and one of the order are passed over, and the draw behind the key is left; two
draws beyond the order leave nothing. -/
theorem generate_takes_first_scalar_third :
    let draws : Draws := [.zeros 32, .bigEndian 32 order, .bigEndian 32 (order - 1), .zeros 32]
    let beyond : Draws := [.bigEndian 32 order, .bigEndian 32 (2 ^ 256 - 1)]
    (IsFirstScalar draws 2 (.bigEndian 32 (order - 1)) ∧
      ∃ a, generate draws = (.ok a, [.zeros 32]) ∧ a.scalar = order - 1) ∧
      (∀ d ∈ beyond, ¬ IsScalar d.toList) ∧ generate beyond = (.error .drawsExhausted, []) := by
  intro draws beyond
  have hfirst : IsFirstScalar draws 2 (.bigEndian 32 (order - 1)) :=
    ⟨rfl, by decide +kernel, by decide +kernel⟩
  have hbeyond : ∀ d ∈ beyond, ¬ IsScalar d.toList := by decide +kernel
  obtain ⟨a, ha, hbytes⟩ := (generate_takes_first_scalar draws).1 2 _ hfirst
  refine ⟨⟨hfirst, a, ha, ?_⟩, hbeyond, (generate_takes_first_scalar beyond).2.1 hbeyond⟩
  rw [← a.toNat_toBytes, hbytes, ByteVec.toNat_bigEndian (by decide)]

end SealedMessage.SecretKey
