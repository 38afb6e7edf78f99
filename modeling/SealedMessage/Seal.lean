import SealedMessage.Key.Message
import SealedMessage.Padding.Frame
import SealedMessage.Payload.Wire

/-! Encrypting a message into the text of a payload, and decrypting it, under a conversation key or
between a secret and a public key. Randomness comes in as draws, which the system gives. -/

namespace SealedMessage

def ConversationKey.encrypt (k : ConversationKey) (nonce : Nonce) (m : Bytes) : Attempt String := do
  let frame ← Padding.pad m
  let keys ← MessageKeys.derive k nonce
  let ciphertext ← keys.applyKeystream frame
  let tag ← keys.computeTag nonce ciphertext
  Payload.encode ⟨.current, nonce, ciphertext, tag⟩

/-- The tag is checked first, and nothing is decrypted if it is wrong. -/
def Payload.decrypt (p : Payload) (k : ConversationKey) : Attempt Bytes := do
  let keys ← MessageKeys.derive k p.nonce
  let valid ← keys.verifyTag p.nonce p.ciphertext p.tag.toList
  if valid then
    let frame ← keys.applyKeystream p.ciphertext
    Padding.unpad frame
  else Attempt.refuse .decryptionFailed

def ConversationKey.decrypt (k : ConversationKey) (text : String) : Attempt Bytes := do
  let p ← Payload.decode text
  p.decrypt k

/-- Encrypts under the given nonce, or else under the next draw. A message whose length is not
acceptable is refused before anything is drawn. -/
def encryptDrawing (secret : SecretKey) (other : PublicKey) (nonce : Option Nonce) (m : Bytes)
    (draws : Draws) : Attempt String × Draws :=
  match Padding.checkLength m.length with
  | .error r => (Attempt.refuse r, draws)
  | .ok () =>
    let k := ConversationKey.derive secret other
    match nonce, draws with
    | some n, _ => (k.encrypt n m, draws)
    | none, n :: rest => (k.encrypt n m, rest)
    | none, [] => (.error (.fault .drawsExhausted), [])

def encrypt (secret : SecretKey) (other : PublicKey) (nonce : Nonce) (m : Bytes) : Attempt String :=
  (encryptDrawing secret other (some nonce) m []).1

/-- The payload is decoded before the keys are used. -/
def decrypt (secret : SecretKey) (other : PublicKey) (text : String) : Attempt Bytes := do
  let p ← Payload.decode text
  p.decrypt (ConversationKey.derive secret other)

/-- Fails where the system has no randomness to give, since a nonce that can be foretold is worse
than none. -/
def Entropy.draw : IO (ByteVec 32) := do
  let b ← IO.getRandomBytes 32
  match ByteVec.ofList? 32 b.toList with
  | some d => return d
  | none => throw (IO.userError "no randomness")

end SealedMessage
