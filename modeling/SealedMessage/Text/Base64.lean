import SealedMessage.Text

/-! Base64 with the standard alphabet, in its canonical form: groups of four characters, the last
one filled up with `=`, and every bit that carries no data zero. -/

namespace SealedMessage.Text.Base64

/-- The character `=`. -/
def filler : UInt8 := 61

/-- The character of a six-bit number. -/
def digit (n : Nat) : UInt8 :=
  if n < 26 then UInt8.ofNat (n + 65)
  else if n < 52 then UInt8.ofNat (n + 71)
  else if n < 62 then UInt8.ofNat (n - 4)
  else if n = 62 then 43
  else 47

def value? (c : UInt8) : Option Nat :=
  if 65 ≤ c ∧ c ≤ 90 then some (c.toNat - 65)
  else if 97 ≤ c ∧ c ≤ 122 then some (c.toNat - 71)
  else if 48 ≤ c ∧ c ≤ 57 then some (c.toNat + 4)
  else if c = 43 then some 62
  else if c = 47 then some 63
  else none

def isDigit (c : UInt8) : Bool := (value? c).isSome

def encode : Bytes → Bytes
  | [] => []
  | [a] =>
    [digit (a.toNat / 4), digit (a.toNat % 4 * 16), filler, filler]
  | [a, b] =>
    [digit (a.toNat / 4), digit (a.toNat % 4 * 16 + b.toNat / 16), digit (b.toNat % 16 * 4), filler]
  | a :: b :: c :: r =>
    digit (a.toNat / 4) :: digit (a.toNat % 4 * 16 + b.toNat / 16) ::
      digit (b.toNat % 16 * 4 + c.toNat / 64) :: digit (c.toNat % 64) :: encode r

def text (b : Bytes) : String := ofAscii (encode b)

/-- Three bytes from four digits. -/
def full? (a b c d : UInt8) : Option Bytes := do
  let w ← value? a
  let x ← value? b
  let y ← value? c
  let z ← value? d
  return [UInt8.ofNat (w * 4 + x / 16), UInt8.ofNat (x % 16 * 16 + y / 4),
    UInt8.ofNat (y % 4 * 64 + z)]

/-- Two bytes from three digits, of which the last two bits are unused. -/
def pair? (a b c : UInt8) : Option Bytes := do
  let w ← value? a
  let x ← value? b
  let y ← value? c
  if y % 4 = 0 then
    return [UInt8.ofNat (w * 4 + x / 16), UInt8.ofNat (x % 16 * 16 + y / 4)]
  else none

/-- One byte from two digits, of which the last four bits are unused. -/
def single? (a b : UInt8) : Option Bytes := do
  let w ← value? a
  let x ← value? b
  if x % 16 = 0 then return [UInt8.ofNat (w * 4 + x / 16)] else none

/-- The last group may be filled up. -/
def last? (a b c d : UInt8) : Option Bytes :=
  if d ≠ filler then full? a b c d
  else if c ≠ filler then pair? a b c
  else single? a b

def decode? : Bytes → Option Bytes
  | [] => some []
  | a :: b :: c :: d :: r =>
    if r.isEmpty then last? a b c d
    else do
      let group ← full? a b c d
      let rest ← decode? r
      return group ++ rest
  | _ => none

end SealedMessage.Text.Base64
