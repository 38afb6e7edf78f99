import SealedMessage.Refusal

/-! Versions: the first byte of a payload. All three are read, and only the current one is
written. -/

namespace SealedMessage

inductive Version where
  | v0
  | v1
  | v2
  deriving DecidableEq, Repr

namespace Version

def current : Version := v2

def ofByte (b : UInt8) : Except Refusal Version :=
  if b = 0 then .ok v0
  else if b = 1 then .ok v1
  else if b = 2 then .ok v2
  else .error (.unsupportedVersion b)

def toByte : Version → UInt8
  | v0 => 0
  | v1 => 1
  | v2 => 2

/-- Still read and no longer written. -/
def isLegacy (v : Version) : Bool := v != current

def name : Version → String
  | v0 => "V0"
  | v1 => "V1"
  | v2 => "V2"

@[simp] theorem ofByte_toByte (v : Version) : ofByte v.toByte = .ok v := by cases v <;> rfl

end Version

end SealedMessage
