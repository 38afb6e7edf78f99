import SealedMessage.Curve.Point
import SealedMessage.Refusal
import SealedMessage.Text

/-! Public keys: an abscissa of the curve, with the point of even ordinate above it. -/

namespace SealedMessage

open Curve Text

structure PublicKey where
  bytes : ByteVec Sizes.publicKey
  point : Point
  deriving DecidableEq, Repr

namespace PublicKey

def ofBytes (x : ByteVec Sizes.publicKey) : Except Refusal PublicKey :=
  if h : x.toNat < prime then
    match Point.lift? ⟨x.toNat, h⟩ with
    | some p => .ok ⟨x, p⟩
    | none => .error (.badKey .publicOffCurve)
  else .error (.badKey .publicOffCurve)

def ofSlice (b : Bytes) : Except Refusal PublicKey :=
  match ByteVec.ofList? Sizes.publicKey b with
  | some x => ofBytes x
  | none => .error (.badKey .publicLength)

def ofHex (s : String) : Except Refusal PublicKey :=
  match (Hex.decode? (utf8 (trim s))).bind (ByteVec.ofList? Sizes.publicKey) with
  | some x => ofBytes x
  | none => .error (.badKey .publicHex)

def toHex (k : PublicKey) : String := Hex.text k.bytes.toList

instance : ToString PublicKey := ⟨fun k => "PublicKey(" ++ k.toHex ++ ")"⟩

end PublicKey

end SealedMessage
