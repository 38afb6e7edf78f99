import SealedMessage.Fault

/-! Byte strings, of any size and of a fixed one, and their big-endian values. Accesses by position
are checked and fault outside the string. Secret bytes are compared without a look at where they
differ: their differences are gathered in one byte, in which none can cancel another. -/

namespace SealedMessage

abbrev Bytes := List UInt8

namespace Bytes

def get (b : Bytes) (i : Nat) : Checked UInt8 :=
  match b[i]? with
  | some x => .ok x
  | none => .error .outOfRange

/-- The bytes from position `start` up to, and not including, `stop`. -/
def slice (b : Bytes) (start stop : Nat) : Checked Bytes :=
  if start ≤ stop ∧ stop ≤ b.length then .ok ((b.drop start).take (stop - start))
  else .error .outOfRange

theorem slice_of_le {b : Bytes} {start stop : Nat} (h : start ≤ stop) (h' : stop ≤ b.length) :
    b.slice start stop = .ok ((b.drop start).take (stop - start)) := by
  rw [slice, if_pos ⟨h, h'⟩]

/-- Puts `x` over the bytes of `b` from position `start`. -/
def overwrite (b : Bytes) (start : Nat) (x : Bytes) : Checked Bytes :=
  if start + x.length ≤ b.length then .ok (b.take start ++ x ++ b.drop (start + x.length))
  else .error .outOfRange

theorem overwrite_of_le {b x : Bytes} {start : Nat} (h : start + x.length ≤ b.length) :
    b.overwrite start x = .ok (b.take start ++ x ++ b.drop (start + x.length)) := by
  rw [overwrite, if_pos h]

/-- Exclusive or, as long as the shorter operand. -/
def xor (a b : Bytes) : Bytes := a.zipWith (· ^^^ ·) b

@[simp] theorem length_xor (a b : Bytes) : (xor a b).length = min a.length b.length := by
  simp [xor]

/-- The big-endian value. -/
def toNat (b : Bytes) : Nat := b.foldl (fun acc x => acc * 256 + x.toNat) 0

/-- The last `width` big-endian digits of `n`. -/
def bigEndian : Nat → Nat → Bytes
  | 0, _ => []
  | width + 1, n => bigEndian width (n / 256) ++ [UInt8.ofNat n]

@[simp] theorem length_bigEndian (width n : Nat) : (bigEndian width n).length = width := by
  induction width generalizing n with
  | zero => rfl
  | succ w ih => rw [bigEndian, List.length_append, ih, List.length_singleton]

end Bytes

/-- Every bit in which two bytes at one position differ. -/
def differences (a b : Bytes) : UInt8 := (Bytes.xor a b).foldl (· ||| ·) 0

/-- Lengths are no secret, so different lengths answer at once. -/
def constantTimeEq (a b : Bytes) : Bool :=
  if a.length ≠ b.length then false else differences a b == 0

def wipe (b : Bytes) : Bytes := List.replicate b.length 0

/-- A byte string of `n` bytes. -/
structure ByteVec (n : Nat) where
  toList : Bytes
  length_eq : toList.length = n
  deriving DecidableEq, Repr

namespace ByteVec

attribute [simp] length_eq

@[ext] theorem ext {n : Nat} {a b : ByteVec n} (h : a.toList = b.toList) : a = b := by
  cases a; cases b; simp_all

def ofList? (n : Nat) (b : Bytes) : Option (ByteVec n) :=
  if h : b.length = n then some ⟨b, h⟩ else none

@[simp] theorem ofList?_toList {n : Nat} (v : ByteVec n) : ofList? n v.toList = some v := by
  simp [ofList?]

/-- A copy of `b`, which has to have `n` bytes. -/
def copy (n : Nat) (b : Bytes) : Checked (ByteVec n) :=
  if h : b.length = n then .ok ⟨b, h⟩ else .error .sizeMismatch

theorem copy_of_length {n : Nat} {b : Bytes} (h : b.length = n) : copy n b = .ok ⟨b, h⟩ := by
  rw [copy, dif_pos h]

def zeros (n : Nat) : ByteVec n := ⟨List.replicate n 0, by simp⟩

def toNat {n : Nat} (v : ByteVec n) : Nat := v.toList.toNat

def bigEndian (n value : Nat) : ByteVec n := ⟨Bytes.bigEndian n value, by simp⟩

end ByteVec

namespace Sizes

-- all of them in bytes
abbrev nonce : Nat := 32

abbrev tag : Nat := 32

abbrev secretKey : Nat := 32

abbrev publicKey : Nat := 32

abbrev conversationKey : Nat := 32

abbrev cipherKey : Nat := 32

abbrev cipherNonce : Nat := 12

abbrev authKey : Nat := 32

end Sizes

abbrev Nonce := ByteVec Sizes.nonce

abbrev Tag := ByteVec Sizes.tag

/-- A source of randomness, as the byte strings that it is going to give. -/
abbrev Draws := List (ByteVec 32)

end SealedMessage
