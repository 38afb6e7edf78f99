import SealedMessage.Hash
import SealedMessage.Key.Secret

/-! Conversation keys: what the two ends of a conversation share, each from its own secret key and
the other's public key. -/

namespace SealedMessage

open Curve Text

structure ConversationKey where
  bytes : ByteVec Sizes.conversationKey

instance : BEq ConversationKey :=
  ⟨fun a b => constantTimeEq a.bytes.toList b.bytes.toList⟩

/-- The bytes are not shown. -/
instance : ToString ConversationKey := ⟨fun _ => "ConversationKey(..)"⟩

/-- The abscissa of the public point's multiple by the secret scalar. -/
def sharedX (secret : SecretKey) (other : PublicKey) : ByteVec 32 :=
  match other.point.scale 256 secret.scalar with
  | .infinity => ByteVec.zeros 32
  | .affine x _ => ByteVec.bigEndian 32 x.val

namespace ConversationKey

def salt : String := "nip44-v2"

def derive (secret : SecretKey) (other : PublicKey) : ConversationKey :=
  ⟨Hkdf.extract (utf8 salt) (sharedX secret other).toList⟩

end ConversationKey

end SealedMessage
