import SealedMessage.Bytes.Digits
import SealedMessage.Padding.Rounding
import SealedMessage.Seal
import SealedMessage.Text.Base64.Canonical
import SealedMessage.Proofs.Curve.Primality
import SealedMessage.Proofs.Curve.Residues
import SealedMessage.Proofs.Curve.Lifting
import SealedMessage.Proofs.Curve.Group
import SealedMessage.Proofs.Curve.Weighted
import SealedMessage.Proofs.Curve.Generator
import SealedMessage.Proofs.Curve.Cardinality
import SealedMessage.Proofs.Padding.Bucket
import SealedMessage.Proofs.Padding.Least
import SealedMessage.Proofs.Padding.Frame
import SealedMessage.Proofs.Padding.Inverse
import SealedMessage.Proofs.Padding.Overflow
import SealedMessage.Proofs.Cipher.Keystream
import SealedMessage.Proofs.Cipher.Positions
import SealedMessage.Proofs.Key.Derivation
import SealedMessage.Proofs.Key.Expansion
import SealedMessage.Proofs.Key.Comparison
import SealedMessage.Proofs.Key.Scalar
import SealedMessage.Proofs.Key.Generation
import SealedMessage.Proofs.Key.Lifted
import SealedMessage.Proofs.Key.Agreement
import SealedMessage.Proofs.Key.Shared
import SealedMessage.Proofs.Key.Opposite
import SealedMessage.Proofs.Key.Invariant
import SealedMessage.Proofs.Key.Reading
import SealedMessage.Proofs.Text.Trim
import SealedMessage.Proofs.Text.Ascii
import SealedMessage.Proofs.Text.Hexadecimal
import SealedMessage.Proofs.Payload.Fields
import SealedMessage.Proofs.Payload.Canonical
import SealedMessage.Proofs.Payload.Scanned
import SealedMessage.Proofs.Payload.Language
import SealedMessage.Proofs.Payload.Objections
import SealedMessage.Proofs.Payload.Encoding
import SealedMessage.Proofs.Seal.Opening
import SealedMessage.Proofs.Seal.Acceptance
import SealedMessage.Proofs.Seal.RoundTrip
import SealedMessage.Proofs.Seal.Drawing
import SealedMessage.Proofs.Seal.Agreement
import SealedMessage.Proofs.Seal.Length
import SealedMessage.Proofs.Seal.Resealing
import SealedMessage.Proofs.Seal.Tampering
import SealedMessage.Proofs.Seal.Refusals
import SealedMessage.Proofs.Seal.Versions
import SealedMessage.Proofs.Seal.Emission
import SealedMessage.Proofs.Seal.Reuse
import SealedMessage.Proofs.Seal.Faults
import SealedMessage.Proofs.Seal.Gate
