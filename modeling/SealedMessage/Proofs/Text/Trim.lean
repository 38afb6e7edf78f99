import Mathlib
import SealedMessage.Text

/-! Trimming takes away the blanks at both ends of a text and nothing else, so a second trimming
changes nothing. -/

namespace SealedMessage.Text

theorem trimChars_eq (cs : List Char) :
    trimChars cs = (cs.dropWhile isBlank).rdropWhile isBlank := rfl

theorem trimChars_eq_self {cs : List Char} (h : ∀ c ∈ cs, isBlank c = false) :
    trimChars cs = cs := by
  have hd : cs.dropWhile isBlank = cs := by
    rw [List.dropWhile_eq_self_iff]
    intro hl
    simp [h _ (List.getElem_mem hl)]
  rw [trimChars_eq, hd, List.rdropWhile_eq_self_iff]
  intro hl
  simp [h _ (List.getLast_mem hl)]

/-- Blanks around a text do not matter, whatever the text is. -/
theorem trimChars_append {w₁ w₂ : List Char} (cs : List Char) (h₁ : ∀ c ∈ w₁, isBlank c = true)
    (h₂ : ∀ c ∈ w₂, isBlank c = true) : trimChars (w₁ ++ cs ++ w₂) = trimChars cs := by
  have hrev : ∀ c ∈ w₂.reverse, isBlank c = true := fun c hc => h₂ c (List.mem_reverse.1 hc)
  unfold trimChars
  rw [List.append_assoc, List.dropWhile_append_of_pos h₁, List.dropWhile_append]
  split_ifs with he
  · rw [List.isEmpty_iff] at he
    rw [he, List.dropWhile_eq_nil_iff.2 h₂]
  · rw [List.reverse_append, List.dropWhile_append_of_pos hrev]

theorem trimChars_trimChars (cs : List Char) : trimChars (trimChars cs) = trimChars cs := by
  have hd : (trimChars cs).dropWhile isBlank = trimChars cs := by
    -- what is left begins as the text did once its leading blanks were gone
    obtain ⟨t, ht⟩ := List.rdropWhile_prefix isBlank (cs.dropWhile isBlank)
    rw [trimChars_eq]
    generalize (cs.dropWhile isBlank).rdropWhile isBlank = r at ht ⊢
    have hself := List.dropWhile_idempotent isBlank cs
    rw [← ht] at hself
    cases r with
    | nil => rfl
    | cons c r =>
      rw [List.cons_append, List.dropWhile_eq_self_iff] at hself
      have hc : ¬ isBlank c = true := hself (Nat.succ_pos _)
      rw [List.dropWhile_cons_of_neg hc]
  rw [trimChars_eq (trimChars cs), hd]
  exact List.rdropWhile_idempotent isBlank _

theorem trim_trim (s : String) : trim (trim s) = trim s := by
  rw [trim, trim, String.toList_ofList, trimChars_trimChars]

theorem trim_append {w₁ w₂ : String} (s : String) (h₁ : ∀ c ∈ w₁.toList, isBlank c = true)
    (h₂ : ∀ c ∈ w₂.toList, isBlank c = true) : trim (w₁ ++ s ++ w₂) = trim s := by
  rw [trim, String.toList_append, String.toList_append, trimChars_append _ h₁ h₂]
  rfl

theorem trim_eq_self {s : String} (h : ∀ c ∈ s.toList, isBlank c = false) : trim s = s := by
  rw [trim, trimChars_eq_self h, String.ofList_toList]

end SealedMessage.Text
