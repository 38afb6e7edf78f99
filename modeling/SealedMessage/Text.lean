import SealedMessage.Bytes

/-! Texts as the interface reads and writes them: their bytes, the white space at their ends, and
bytes in hexadecimal, two digits each, written in lower case and read in either. -/

namespace SealedMessage.Text

def utf8 (s : String) : Bytes := s.toList.flatMap String.utf8EncodeChar

/-- One character for each byte; the bytes are meant to be below 128. -/
def ofAscii (b : Bytes) : String := String.ofList (b.map fun x => Char.ofNat x.toNat)

/-- White space in the sense of the Unicode property White_Space. -/
def isBlank (c : Char) : Bool :=
  ('\x09' ≤ c && c ≤ '\x0d') || c == ' ' || c == '\u0085' || c == '\u00a0' || c == '\u1680' ||
    ('\u2000' ≤ c && c ≤ '\u200a') || c == '\u2028' || c == '\u2029' || c == '\u202f' ||
    c == '\u205f' || c == '\u3000'

def trimChars (cs : List Char) : List Char :=
  ((cs.dropWhile isBlank).reverse.dropWhile isBlank).reverse

def trim (s : String) : String := String.ofList (trimChars s.toList)

namespace Hex

def digit (n : UInt8) : UInt8 := if n < 10 then n + 48 else n + 87

def value? (c : UInt8) : Option UInt8 :=
  if 48 ≤ c ∧ c ≤ 57 then some (c - 48)
  else if 97 ≤ c ∧ c ≤ 102 then some (c - 87)
  else if 65 ≤ c ∧ c ≤ 70 then some (c - 55)
  else none

def encode (b : Bytes) : Bytes := b.flatMap fun x => [digit (x / 16), digit (x % 16)]

def text (b : Bytes) : String := ofAscii (encode b)

def decode? : Bytes → Option Bytes
  | [] => some []
  | hi :: lo :: r => do
    let h ← value? hi
    let l ← value? lo
    let rest ← decode? r
    return (h * 16 + l) :: rest
  | _ => none

theorem halves_ofNat : ∀ h < 16, ∀ l < 16,
    (UInt8.ofNat h * 16 + UInt8.ofNat l) / 16 = UInt8.ofNat h ∧
      (UInt8.ofNat h * 16 + UInt8.ofNat l) % 16 = UInt8.ofNat l := by
  decide +kernel

theorem halves {h l : UInt8} (hh : h < 16) (hl : l < 16) :
    (h * 16 + l) / 16 = h ∧ (h * 16 + l) % 16 = l := by
  have hk := halves_ofNat h.toNat (UInt8.lt_iff_toNat_lt.1 hh) l.toNat (UInt8.lt_iff_toNat_lt.1 hl)
  rwa [UInt8.ofNat_toNat, UInt8.ofNat_toNat] at hk

theorem halves_lt (x : UInt8) : x / 16 < 16 ∧ x % 16 < 16 := by
  have hx := x.toNat_lt
  constructor
  · rw [UInt8.lt_iff_toNat_lt, UInt8.toNat_div]
    change x.toNat / 16 < 16
    omega
  · rw [UInt8.lt_iff_toNat_lt, UInt8.toNat_mod]
    change x.toNat % 16 < 16
    omega

theorem join_halves (x : UInt8) : x / 16 * 16 + x % 16 = x := by
  have hx := x.toNat_lt
  have h16 : (16 : UInt8).toNat = 16 := rfl
  apply UInt8.toNat_inj.1
  rw [UInt8.toNat_add, UInt8.toNat_mul, UInt8.toNat_div, UInt8.toNat_mod, h16]
  omega

theorem encode_cons (x : UInt8) (b : Bytes) :
    encode (x :: b) = digit (x / 16) :: digit (x % 16) :: encode b := rfl

end Hex

end SealedMessage.Text
