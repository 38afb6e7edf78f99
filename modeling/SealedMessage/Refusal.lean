import SealedMessage.Fault

/-! Refusals: what a caller is told when a message, a key or a payload is not acceptable, with its
text, its kind and the text fit for an end user. -/

namespace SealedMessage

inductive KeyDefect where
  | secretLength
  | secretRange
  | secretHex
  | publicLength
  | publicOffCurve
  | publicHex
  /-- A defect that a caller words itself. -/
  | described (text : String)
  deriving DecidableEq, Repr

def KeyDefect.message : KeyDefect → String
  | .secretLength => "secret key must be 32 bytes"
  | .secretRange => "secret key is zero or out of range"
  | .secretHex => "secret key is not 64 hex characters"
  | .publicLength => "public key must be 32 bytes"
  | .publicOffCurve => "public key is not on the curve"
  | .publicHex => "public key is not 64 hex characters"
  | .described text => text

inductive PayloadDefect where
  | marker
  | encodedLength
  | raggedLength
  | character
  | unusedBits
  | decodedLength
  /-- A defect that a caller words itself. -/
  | described (text : String)
  deriving DecidableEq, Repr

def PayloadDefect.message : PayloadDefect → String
  | .marker => "unsupported encoding marker"
  | .encodedLength => "encoded length out of range"
  | .raggedLength => "encoded length not a multiple of 4"
  | .character => "invalid base64 character"
  | .unusedBits => "base64 decoding failed"
  | .decodedLength => "decoded length out of range"
  | .described text => text

/-- A wrong tag and an inconsistent frame are one refusal, `decryptionFailed`. -/
inductive Refusal where
  | plaintextLength (length : Nat)
  | badKey (defect : KeyDefect)
  | badPayload (defect : PayloadDefect)
  | unsupportedVersion (byte : UInt8)
  | decryptionFailed
  deriving DecidableEq, Repr

namespace Refusal

def message : Refusal → String
  | plaintextLength n => "invalid plaintext length: " ++ toString n ++ " (must be 1..=65535 bytes)"
  | badKey d => "invalid key: " ++ d.message
  | badPayload d => "invalid payload: " ++ d.message
  | unsupportedVersion b => "unsupported version: " ++ toString b.toNat
  | decryptionFailed => "decryption failed"

inductive Kind where
  | inputValidation
  | payloadFormat
  | unsupportedVersion
  | authentication
  deriving DecidableEq, Repr

def kind : Refusal → Kind
  | plaintextLength _ => .inputValidation
  | badKey _ => .inputValidation
  | badPayload _ => .payloadFormat
  | unsupportedVersion _ => .unsupportedVersion
  | decryptionFailed => .authentication

/-- The same input is refused again, so no refusal is worth a retry. -/
def Kind.isFatal : Kind → Bool
  | .inputValidation => true
  | .payloadFormat => true
  | .unsupportedVersion => true
  | .authentication => true

def Kind.userMessage : Kind → String
  | .inputValidation => "message or key is invalid"
  | .payloadFormat => "message is malformed"
  | .unsupportedVersion => "message uses an unsupported encryption version"
  | .authentication => "could not decrypt message"

def isFatal (r : Refusal) : Bool := r.kind.isFatal

def userMessage (r : Refusal) : String := r.kind.userMessage

end Refusal

/-- Why an attempt has no result. -/
inductive Stop where
  | refused (refusal : Refusal)
  | fault (fault : Fault)
  deriving DecidableEq, Repr

/-- A pipeline over hostile input: a value, a refusal or a fault. -/
abbrev Attempt := Except Stop

instance : MonadLift Checked Attempt where
  monadLift x := x.mapError .fault

instance : MonadLift (Except Refusal) Attempt where
  monadLift x := x.mapError .refused

namespace Attempt

def refuse {α : Type} (r : Refusal) : Attempt α := .error (.refused r)

@[simp] theorem liftM_checked_ok {α : Type} (a : α) :
    (liftM (.ok a : Checked α) : Attempt α) = .ok a := rfl

@[simp] theorem liftM_checked_error {α : Type} (f : Fault) :
    (liftM (.error f : Checked α) : Attempt α) = .error (.fault f) := rfl

@[simp] theorem liftM_refusal_ok {α : Type} (a : α) :
    (liftM (.ok a : Except Refusal α) : Attempt α) = .ok a := rfl

@[simp] theorem liftM_refusal_error {α : Type} (r : Refusal) :
    (liftM (.error r : Except Refusal α) : Attempt α) = refuse r := rfl

@[simp] theorem refuse_ne_ok {α : Type} (r : Refusal) (a : α) : refuse r ≠ .ok a := nofun

@[simp] theorem refuse_inj {α : Type} {r r' : Refusal} :
    (refuse r : Attempt α) = refuse r' ↔ r = r' := by
  simp [refuse]

@[simp] theorem refuse_bind {α β : Type} (r : Refusal) (f : α → Attempt β) :
    (refuse r >>= f) = refuse r := rfl

end Attempt

end SealedMessage
