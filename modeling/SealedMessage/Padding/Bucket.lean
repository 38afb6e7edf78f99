import SealedMessage.Word

/-! Buckets: the sizes to which a message is padded, so that only the bucket of its length shows.
`paddedLen` runs on words, and `bucketLen` is the same rule on unbounded numbers. -/

namespace SealedMessage.Padding

def smallestBucket : Word := 32

/-- How far apart the buckets are below a power of two. -/
def chunkBelow (power : Word) : Checked Word :=
  if power ≤ 256 then .ok 32 else Word.div power 8

/-- Rounds up to a multiple of 32 up to 256, and to an eighth of the next power of two above. -/
def paddedLen (n : Word) : Checked Word :=
  if n ≤ smallestBucket then .ok smallestBucket
  else do
    let last ← Word.sub n 1
    let exponent ← Word.sub 64 (Word.leadingZeros last)
    let nextPower ← Word.shiftLeft 1 exponent
    let chunk ← chunkBelow nextPower
    let full ← Word.div last chunk
    let count ← Word.add full 1
    Word.mul chunk count

/-- The least power of two that is not below `n`, for `n` above one. -/
def nextPower (n : Nat) : Nat := 1 <<< (Nat.log2 (n - 1) + 1)

def chunkLen (n : Nat) : Nat := if nextPower n ≤ 256 then 32 else nextPower n / 8

def bucketLen (n : Nat) : Nat :=
  if n ≤ 32 then 32 else chunkLen n * ((n - 1) / chunkLen n + 1)

end SealedMessage.Padding
