import SealedMessage.Bytes

/-! The hash function SHA-256 on byte strings, message authentication with it (HMAC), and key
derivation with that (HKDF): a key is extracted from a secret, and then expanded. -/

namespace SealedMessage

namespace Sha256

structure State where
  a : UInt32
  b : UInt32
  c : UInt32
  d : UInt32
  e : UInt32
  f : UInt32
  g : UInt32
  h : UInt32
  deriving DecidableEq, Repr

def initial : State :=
  ⟨0x6a09e667, 0xbb67ae85, 0x3c6ef372, 0xa54ff53a, 0x510e527f, 0x9b05688c, 0x1f83d9ab, 0x5be0cd19⟩

def roundConstants : List UInt32 :=
  [0x428a2f98, 0x71374491, 0xb5c0fbcf, 0xe9b5dba5, 0x3956c25b, 0x59f111f1, 0x923f82a4, 0xab1c5ed5,
   0xd807aa98, 0x12835b01, 0x243185be, 0x550c7dc3, 0x72be5d74, 0x80deb1fe, 0x9bdc06a7, 0xc19bf174,
   0xe49b69c1, 0xefbe4786, 0x0fc19dc6, 0x240ca1cc, 0x2de92c6f, 0x4a7484aa, 0x5cb0a9dc, 0x76f988da,
   0x983e5152, 0xa831c66d, 0xb00327c8, 0xbf597fc7, 0xc6e00bf3, 0xd5a79147, 0x06ca6351, 0x14292967,
   0x27b70a85, 0x2e1b2138, 0x4d2c6dfc, 0x53380d13, 0x650a7354, 0x766a0abb, 0x81c2c92e, 0x92722c85,
   0xa2bfe8a1, 0xa81a664b, 0xc24b8b70, 0xc76c51a3, 0xd192e819, 0xd6990624, 0xf40e3585, 0x106aa070,
   0x19a4c116, 0x1e376c08, 0x2748774c, 0x34b0bcb5, 0x391c0cb3, 0x4ed8aa4a, 0x5b9cca4f, 0x682e6ff3,
   0x748f82ee, 0x78a5636f, 0x84c87814, 0x8cc70208, 0x90befffa, 0xa4506ceb, 0xbef9a3f7, 0xc67178f2]

def rotateRight (x n : UInt32) : UInt32 := x >>> n ||| x <<< (32 - n)

/-- Big-endian words of four bytes. -/
def words : Bytes → List UInt32
  | a :: b :: c :: d :: r => UInt32.ofNat (Bytes.toNat [a, b, c, d]) :: words r
  | _ => []

/-- One more word, from the words two, seven, fifteen and sixteen places back. -/
def extend (w : Array UInt32) : Array UInt32 :=
  let back (n : Nat) : UInt32 := w.getD (w.size - n) 0
  let x := back 15
  let y := back 2
  w.push (back 16 + (rotateRight x 7 ^^^ rotateRight x 18 ^^^ x >>> 3) + back 7 +
    (rotateRight y 17 ^^^ rotateRight y 19 ^^^ y >>> 10))

def schedule (block : Bytes) : List UInt32 := (Nat.repeat extend 48 (words block).toArray).toList

def round (s : State) (k w : UInt32) : State :=
  let t := s.h + (rotateRight s.e 6 ^^^ rotateRight s.e 11 ^^^ rotateRight s.e 25) +
    ((s.e &&& s.f) ^^^ (~~~s.e &&& s.g)) + k + w
  let u := (rotateRight s.a 2 ^^^ rotateRight s.a 13 ^^^ rotateRight s.a 22) +
    ((s.a &&& s.b) ^^^ (s.a &&& s.c) ^^^ (s.b &&& s.c))
  ⟨t + u, s.a, s.b, s.c, s.d + t, s.e, s.f, s.g⟩

def State.plus (s t : State) : State :=
  ⟨s.a + t.a, s.b + t.b, s.c + t.c, s.d + t.d, s.e + t.e, s.f + t.f, s.g + t.g, s.h + t.h⟩

def compress (s : State) (block : Bytes) : State :=
  s.plus ((roundConstants.zip (schedule block)).foldl (fun t kw => round t kw.1 kw.2) s)

/-- Compresses block after block of 64 bytes. -/
def absorb (s : State) : Bytes → State
  | [] => s
  | x :: r => absorb (compress s ((x :: r).take 64)) ((x :: r).drop 64)
termination_by b => b.length
decreasing_by simp only [List.length_drop, List.length_cons]; omega

/-- The padding behind a message of `n` bytes: a one bit, zeros, and the number of bits. -/
def padding (n : Nat) : Bytes :=
  0x80 :: (List.replicate ((119 - n % 64) % 64) 0 ++ Bytes.bigEndian 8 (8 * n))

def State.toBytes (s : State) : Bytes :=
  [s.a, s.b, s.c, s.d, s.e, s.f, s.g, s.h].flatMap fun x => Bytes.bigEndian 4 x.toNat

@[simp] theorem State.length_toBytes (s : State) : s.toBytes.length = 32 := by
  simp [State.toBytes]

abbrev Digest := ByteVec 32

def digest (m : Bytes) : Digest :=
  ⟨(absorb initial (m ++ padding m.length)).toBytes, by simp⟩

end Sha256

/-- A mac under way: what its two hashes have taken in so far, the outer one only the key. -/
structure Hmac where
  inner : Bytes
  outer : Bytes

namespace Hmac

/-- A long key is hashed; then zeros fill it up to a block of 64 bytes. -/
def keyBlock (key : Bytes) : Bytes :=
  let k := if 64 < key.length then (Sha256.digest key).toList else key
  k ++ List.replicate (64 - k.length) 0

/-- The answer leaves room for a refusal, but a key of any size will do. -/
def start? (key : Bytes) : Option Hmac :=
  some ⟨(keyBlock key).map (· ^^^ 0x36), (keyBlock key).map (· ^^^ 0x5c)⟩

def update (h : Hmac) (b : Bytes) : Hmac := { h with inner := h.inner ++ b }

def finish (h : Hmac) : Bytes :=
  (Sha256.digest (h.outer ++ (Sha256.digest h.inner).toList)).toList

/-- The mac of a message that is there as a whole. -/
def mac (key m : Bytes) : Sha256.Digest :=
  let k := keyBlock key
  let inner := Sha256.digest (k.map (· ^^^ 0x36) ++ m)
  Sha256.digest (k.map (· ^^^ 0x5c) ++ inner.toList)

/-- Pieces fed in one after the other count as one piece. -/
theorem update_update (h : Hmac) (a b : Bytes) : (h.update a).update b = h.update (a ++ b) := by
  rw [update, update, update, List.append_assoc]

theorem exists_start? (key : Bytes) :
    ∃ h, start? key = some h ∧ ∀ m, (h.update m).finish = (mac key m).toList :=
  ⟨_, rfl, fun _ => rfl⟩

end Hmac

namespace Hkdf

def extract (salt secret : Bytes) : Sha256.Digest := Hmac.mac salt secret

/-- Output blocks from number `i` on; each takes in the block before it. -/
def blocks (key info : Bytes) : Nat → Nat → Bytes → Bytes
  | 0, _, _ => []
  | count + 1, i, before =>
    let t := (Hmac.mac key (before ++ info ++ [UInt8.ofNat i])).toList
    t ++ blocks key info count (i + 1) t

/-- The first `n` bytes of the output; there are none for a key shorter than a digest or for more
than 255 blocks. -/
def expand? (key info : Bytes) (n : Nat) : Option Bytes :=
  if key.length < 32 ∨ 255 * 32 < n then none
  else some ((blocks key info ((n + 31) / 32) 1 []).take n)

end Hkdf

end SealedMessage
