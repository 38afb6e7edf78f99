import SealedMessage.Cipher.ChaCha20
import SealedMessage.Key.Conversation

/-! Message keys: three keys for one message, expanded from the conversation key and the message's
nonce, and what they do to the message. -/

namespace SealedMessage

structure MessageKeys where
  cipherKey : ByteVec Sizes.cipherKey
  cipherNonce : ByteVec Sizes.cipherNonce
  authKey : ByteVec Sizes.authKey
  deriving DecidableEq

namespace MessageKeys

def expandedSize : Nat := Sizes.cipherKey + Sizes.cipherNonce + Sizes.authKey

/-- The expanded bytes in order: the cipher's key, the cipher's nonce, the key of the tag. -/
def split (out : Bytes) : Checked MessageKeys := do
  let nonceStart := Sizes.cipherKey
  let authStart := nonceStart + Sizes.cipherNonce
  let cipherKey ← ByteVec.copy Sizes.cipherKey (← Bytes.slice out 0 nonceStart)
  let cipherNonce ← ByteVec.copy Sizes.cipherNonce (← Bytes.slice out nonceStart authStart)
  let authKey ← ByteVec.copy Sizes.authKey (← Bytes.slice out authStart out.length)
  return ⟨cipherKey, cipherNonce, authKey⟩

def derive (k : ConversationKey) (nonce : Nonce) : Checked MessageKeys :=
  match Hkdf.expand? k.bytes.toList nonce.toList expandedSize with
  | some out => split out
  | none => .error .unreachable

def applyKeystream (keys : MessageKeys) (b : Bytes) : Checked Bytes :=
  ChaCha20.apply keys.cipherKey keys.cipherNonce b

/-- The tag covers the nonce and the ciphertext. -/
def computeTag (keys : MessageKeys) (nonce : Nonce) (ciphertext : Bytes) : Checked Tag :=
  match Hmac.start? keys.authKey.toList with
  | some mac => ByteVec.copy Sizes.tag ((mac.update nonce.toList).update ciphertext).finish
  | none => .error .unreachable

def verifyTag (keys : MessageKeys) (nonce : Nonce) (ciphertext given : Bytes) : Checked Bool := do
  let expected ← keys.computeTag nonce ciphertext
  return constantTimeEq expected.toList given

/-- The value of `computeTag`. -/
def tag (keys : MessageKeys) (nonce : Nonce) (ciphertext : Bytes) : Tag :=
  Hmac.mac keys.authKey.toList (nonce.toList ++ ciphertext)

theorem computeTag_eq (keys : MessageKeys) (nonce : Nonce) (ciphertext : Bytes) :
    keys.computeTag nonce ciphertext = .ok (keys.tag nonce ciphertext) := by
  obtain ⟨mac, hstart, hfinish⟩ := Hmac.exists_start? keys.authKey.toList
  have hvalue : ((mac.update nonce.toList).update ciphertext).finish =
      (keys.tag nonce ciphertext).toList := by
    rw [Hmac.update_update, hfinish, tag]
  rw [computeTag, hstart]
  dsimp only
  rw [hvalue, ByteVec.copy_of_length (ByteVec.length_eq _)]

end MessageKeys

end SealedMessage
