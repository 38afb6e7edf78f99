import SealedMessage.Bytes
import SealedMessage.Padding.Bucket
import SealedMessage.Refusal

/-! Frames: a message's length in two bytes, the message, and padding up to its bucket. -/

namespace SealedMessage.Padding

def minPlaintext : Nat := 1

def maxPlaintext : Nat := 65535

def lengthSize : Nat := 2

def checkLength (n : Nat) : Except Refusal Unit :=
  if minPlaintext ≤ n ∧ n ≤ maxPlaintext then .ok () else .error (.plaintextLength n)

section Rounding

/- The rounding of lengths is a parameter: padding and unpadding say which lengths are rounded, and
not how. -/
variable (round : Word → Checked Word)

def padBy (m : Bytes) : Attempt Bytes := do
  checkLength m.length
  let size ← round (UInt64.ofNat m.length)
  let total ← Word.add (UInt64.ofNat lengthSize) size
  let blank := List.replicate total.toNat 0
  let headed ← Bytes.overwrite blank 0 (Bytes.bigEndian lengthSize m.length)
  Bytes.overwrite headed lengthSize m

/-- The padding's bytes are not looked at, only their number. -/
def unpadBy : Bytes → Attempt Bytes
  | hi :: lo :: body => do
    let n := Bytes.toNat [hi, lo]
    if n < minPlaintext then Attempt.refuse .decryptionFailed
    else
      let size ← round (UInt64.ofNat n)
      if body.length ≠ size.toNat then Attempt.refuse .decryptionFailed
      else Bytes.slice body 0 n
  | _ => Attempt.refuse .decryptionFailed

end Rounding

def pad (m : Bytes) : Attempt Bytes := padBy paddedLen m

def unpad (x : Bytes) : Attempt Bytes := unpadBy paddedLen x

/-- `x` frames `m`, with any bytes as padding. -/
def IsFrame (x m : Bytes) : Prop :=
  minPlaintext ≤ m.length ∧ m.length ≤ maxPlaintext ∧
    ∃ z : Bytes, x = Bytes.bigEndian lengthSize m.length ++ m ++ z ∧
      m.length + z.length = bucketLen m.length

end SealedMessage.Padding
