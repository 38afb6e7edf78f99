import SealedMessage.Bytes

/-! The stream cipher ChaCha20 with a 32-bit block counter that starts at zero. -/

namespace SealedMessage.ChaCha20

abbrev State := Vector UInt32 16

def rotateLeft (x n : UInt32) : UInt32 := x <<< n ||| x >>> (32 - n)

def quarterRound (s : State) (a b c d : Fin 16) : State :=
  let s := s.set a (s[a] + s[b])
  let s := s.set d (rotateLeft (s[d] ^^^ s[a]) 16)
  let s := s.set c (s[c] + s[d])
  let s := s.set b (rotateLeft (s[b] ^^^ s[c]) 12)
  let s := s.set a (s[a] + s[b])
  let s := s.set d (rotateLeft (s[d] ^^^ s[a]) 8)
  let s := s.set c (s[c] + s[d])
  s.set b (rotateLeft (s[b] ^^^ s[c]) 7)

/-- The columns, then the diagonals. -/
def doubleRound (s : State) : State :=
  let s := quarterRound s 0 4 8 12
  let s := quarterRound s 1 5 9 13
  let s := quarterRound s 2 6 10 14
  let s := quarterRound s 3 7 11 15
  let s := quarterRound s 0 5 10 15
  let s := quarterRound s 1 6 11 12
  let s := quarterRound s 2 7 8 13
  quarterRound s 3 4 9 14

/-- Little-endian words of four bytes. -/
def words : Bytes → List UInt32
  | a :: b :: c :: d :: r => UInt32.ofNat (Bytes.toNat [d, c, b, a]) :: words r
  | _ => []

def littleEndian (x : UInt32) : Bytes := (Bytes.bigEndian 4 x.toNat).reverse

theorem length_flatMap_littleEndian (ws : List UInt32) :
    (ws.flatMap littleEndian).length = 4 * ws.length := by
  induction ws with
  | nil => rfl
  | cons w ws ih =>
    simp only [List.flatMap_cons, List.length_append, List.length_cons, ih]
    simp [littleEndian, Nat.mul_add, Nat.add_comm]

def initial (key : ByteVec 32) (nonce : ByteVec 12) (counter : Nat) : State :=
  let ws := [0x61707865, 0x3320646e, 0x79622d32, 0x6b206574] ++ words key.toList ++
    [UInt32.ofNat counter] ++ words nonce.toList
  Vector.ofFn fun i => ws.getD i 0

def block (key : ByteVec 32) (nonce : ByteVec 12) (counter : Nat) : Bytes :=
  let s := initial key nonce counter
  (s.zipWith (· + ·) (Nat.repeat doubleRound 10 s)).toList.flatMap littleEndian

@[simp] theorem length_block (key : ByteVec 32) (nonce : ByteVec 12) (counter : Nat) :
    (block key nonce counter).length = 64 := by
  rw [block, length_flatMap_littleEndian, Vector.length_toList]

/-- The first `n` bytes of the keystream. -/
def keystream (key : ByteVec 32) (nonce : ByteVec 12) (n : Nat) : Bytes :=
  ((List.range ((n + 63) / 64)).flatMap (block key nonce)).take n

def maxBlocks : Nat := 0xffffffff

/-- Encrypts and decrypts. The block counter has to be able to number all blocks. -/
def apply (key : ByteVec 32) (nonce : ByteVec 12) (b : Bytes) : Checked Bytes :=
  if (b.length + 63) / 64 ≤ maxBlocks then .ok (Bytes.xor b (keystream key nonce b.length))
  else .error .keystreamExhausted

end SealedMessage.ChaCha20
