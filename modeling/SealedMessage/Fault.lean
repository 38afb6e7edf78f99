/-! Faults: arithmetic on machine words, an access to a byte string or a source of randomness that
cannot go on. A fault is kept apart from a refusal, which is an answer to the caller. -/

namespace SealedMessage

inductive Fault where
  | addOverflow
  | subOverflow
  | mulOverflow
  | shiftOverflow
  | divisionByZero
  | outOfRange
  | sizeMismatch
  | keystreamExhausted
  | drawsExhausted
  | unreachable
  deriving DecidableEq, Repr

def Fault.message : Fault → String
  | .addOverflow => "attempt to add with overflow"
  | .subOverflow => "attempt to subtract with overflow"
  | .mulOverflow => "attempt to multiply with overflow"
  | .shiftOverflow => "attempt to shift left with overflow"
  | .divisionByZero => "attempt to divide by zero"
  | .outOfRange => "range out of bounds"
  | .sizeMismatch => "byte strings of different lengths"
  | .keystreamExhausted => "keystream exhausted"
  | .drawsExhausted => "environment exhausted"
  | .unreachable => "unreachable case"

/-- A computation that either has its value or stops at a fault. -/
abbrev Checked := Except Fault

@[simp] theorem ok_bind {ε α β : Type} (a : α) (f : α → Except ε β) :
    (Except.ok a >>= f) = f a := rfl

@[simp] theorem error_bind {ε α β : Type} (e : ε) (f : α → Except ε β) :
    (Except.error e >>= f) = .error e := rfl

namespace Checked

/-- Subtraction that faults below zero. -/
def minus (a b : Nat) : Checked Nat :=
  if b ≤ a then .ok (a - b) else .error .subOverflow

theorem minus_of_le {a b : Nat} (h : b ≤ a) : minus a b = .ok (a - b) := by simp [minus, h]

end Checked

end SealedMessage
