import SealedMessage.Key.Public

/-! Secret keys: scalars between zero and the order of the curve, read from bytes or hexadecimal or
drawn at random, and their public keys. -/

namespace SealedMessage

open Curve Text

structure SecretKey where
  scalar : Nat
  pos : 0 < scalar
  lt : scalar < order
  deriving DecidableEq

namespace SecretKey

def ofBytes (b : ByteVec Sizes.secretKey) : Except Refusal SecretKey :=
  if h : 0 < b.toNat ∧ b.toNat < order then .ok ⟨b.toNat, h.1, h.2⟩
  else .error (.badKey .secretRange)

def ofSlice (b : Bytes) : Except Refusal SecretKey :=
  match ByteVec.ofList? Sizes.secretKey b with
  | some x => ofBytes x
  | none => .error (.badKey .secretLength)

def ofHex (s : String) : Except Refusal SecretKey :=
  match (Hex.decode? (utf8 (trim s))).bind (ByteVec.ofList? Sizes.secretKey) with
  | some x => ofBytes x
  | none => .error (.badKey .secretHex)

def toBytes (k : SecretKey) : ByteVec Sizes.secretKey :=
  ByteVec.bigEndian Sizes.secretKey k.scalar

/-- The scalar is not shown. -/
instance : ToString SecretKey := ⟨fun _ => "SecretKey(..)"⟩

/-- Draws until a draw is a scalar in range. -/
def generate : Draws → Checked SecretKey × Draws
  | [] => (.error .drawsExhausted, [])
  | d :: ds =>
    match ofBytes d with
    | .ok k => (.ok k, ds)
    | .error _ => generate ds

/-- The key's multiple of the generator, cut down to its abscissa. -/
def publicKey (k : SecretKey) : Checked PublicKey :=
  match Point.generator.scale 256 k.scalar with
  | .infinity => .error .unreachable
  | .affine x _ =>
    match PublicKey.ofBytes (ByteVec.bigEndian Sizes.publicKey x.val) with
    | .ok p => .ok p
    | .error _ => .error .unreachable

end SecretKey

end SealedMessage
