import SealedMessage.Refusal
import SealedMessage.Text.Base64

/-! The check of an encoded payload before it is decoded: its length, and base64 digits followed by
at most two fillers. -/

namespace SealedMessage.Payload

open Text

def minEncoded : Nat := 132

def maxEncoded : Nat := 87472

inductive ScanState where
  | digits
  | oneFiller
  | twoFillers
  deriving DecidableEq, Repr

def ScanState.next? : ScanState → UInt8 → Option ScanState
  | digits, c =>
    if Base64.isDigit c then some digits
    else if c = Base64.filler then some oneFiller
    else none
  | oneFiller, c => if c = Base64.filler then some twoFillers else none
  | twoFillers, _ => none

def scanFrom (s : ScanState) : Bytes → Bool
  | [] => true
  | c :: r =>
    match s.next? c with
    | some t => scanFrom t r
    | none => false

def scan (e : Bytes) : Except Refusal Unit :=
  if e.length < minEncoded ∨ maxEncoded < e.length then .error (.badPayload .encodedLength)
  else if e.length % 4 ≠ 0 then .error (.badPayload .raggedLength)
  else if scanFrom .digits e then .ok ()
  else .error (.badPayload .character)

/-- Base64 digits with nothing, one or two fillers behind them. -/
def IsScanned (e : Bytes) : Prop :=
  ∃ u v : Bytes, e = u ++ v ∧ (∀ c ∈ u, Base64.isDigit c = true) ∧
    (v = [] ∨ v = [Base64.filler] ∨ v = [Base64.filler, Base64.filler])

end SealedMessage.Payload
