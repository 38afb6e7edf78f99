import SealedMessage.Fault

/-! Arithmetic on 64-bit words in which every overflow is a fault. -/

namespace SealedMessage

abbrev Word := UInt64

namespace Word

def add (a b : Word) : Checked Word :=
  if a.toNat + b.toNat < UInt64.size then .ok (a + b) else .error .addOverflow

def sub (a b : Word) : Checked Word :=
  if b ≤ a then .ok (a - b) else .error .subOverflow

def mul (a b : Word) : Checked Word :=
  if a.toNat * b.toNat < UInt64.size then .ok (a * b) else .error .mulOverflow

def div (a b : Word) : Checked Word :=
  if b = 0 then .error .divisionByZero else .ok (a / b)

/-- Bits shifted out are lost; a shift by the whole width is a fault. -/
def shiftLeft (a n : Word) : Checked Word :=
  if n < 64 then .ok (a <<< n) else .error .shiftOverflow

def leadingZeros (a : Word) : Word := ⟨a.toBitVec.clz⟩

end Word

end SealedMessage
