import SealedMessage.Payload.Scan
import SealedMessage.Payload.Version

/-! Payloads and their text: the base64 of a version byte, a nonce, the ciphertext and a tag. What
is decoded here is well formed and not yet authenticated. -/

namespace SealedMessage

structure Payload where
  version : Version
  nonce : Nonce
  ciphertext : Bytes
  tag : Tag
  deriving DecidableEq, Repr

namespace Payload

open Text

def minDecoded : Nat := 99

def maxDecoded : Nat := 65603

/-- A text that starts with `#` is in some other encoding. -/
def marker : Char := '#'

def toBytes (p : Payload) : Bytes :=
  p.version.toByte :: (p.nonce.toList ++ p.ciphertext ++ p.tag.toList)

/-- Takes the fields out of decoded bytes. -/
def ofBytes (d : Bytes) : Attempt Payload := do
  let first ← d.get 0
  let version ← Version.ofByte first
  let nonce ← ByteVec.copy Sizes.nonce (← d.slice 1 (1 + Sizes.nonce))
  let tagStart ← Checked.minus d.length Sizes.tag
  let tag ← ByteVec.copy Sizes.tag (← d.slice tagStart d.length)
  let ciphertext ← d.slice (1 + Sizes.nonce) tagStart
  return ⟨version, nonce, ciphertext, tag⟩

/-- The checks go from the cheapest to the dearest, and the first that fails is the refusal. -/
def ofEncoded (e : Bytes) : Attempt Payload := do
  if e.head? = some marker.toUInt8 then Attempt.refuse (.badPayload .marker)
  scan e
  match Base64.decode? e with
  | none => Attempt.refuse (.badPayload .unusedBits)
  | some d =>
    if d.length < minDecoded ∨ maxDecoded < d.length then
      Attempt.refuse (.badPayload .decodedLength)
    else ofBytes d

def decode (text : String) : Attempt Payload := ofEncoded (utf8 (trim text))

def encode (p : Payload) : Except Refusal String :=
  if p.version = .current then .ok (Base64.text p.toBytes)
  else .error (.unsupportedVersion p.version.toByte)

end Payload

end SealedMessage
