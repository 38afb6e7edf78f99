/-! The prime field of the curve secp256k1, by residues below its prime. -/

namespace SealedMessage.Curve

def prime : Nat := 0xfffffffffffffffffffffffffffffffffffffffffffffffffffffffefffffc2f

structure FieldElement where
  val : Nat
  lt : val < prime
  deriving DecidableEq, Repr

namespace FieldElement

theorem ext {a b : FieldElement} (h : a.val = b.val) : a = b := by
  cases a; cases b; simp_all

def ofNat (n : Nat) : FieldElement := ⟨n % prime, Nat.mod_lt _ (by decide)⟩

instance (n : Nat) : OfNat FieldElement n := ⟨ofNat n⟩

instance : Add FieldElement := ⟨fun a b => ofNat (a.val + b.val)⟩

instance : Mul FieldElement := ⟨fun a b => ofNat (a.val * b.val)⟩

instance : Neg FieldElement := ⟨fun a => ofNat (prime - a.val)⟩

instance : Sub FieldElement := ⟨fun a b => ofNat (a.val + (prime - b.val))⟩

/-- The power by the low `bits` binary digits of the exponent. -/
def pow (a : FieldElement) : Nat → Nat → FieldElement
  | 0, _ => 1
  | bits + 1, e =>
    let half := pow a bits (e / 2)
    if e % 2 = 1 then half * half * a else half * half

/-- The inverse of a nonzero element, since its power to the predecessor of the prime is one. -/
def inverse (a : FieldElement) : FieldElement := pow a 256 (prime - 2)

/-- A square root; since the prime is 3 modulo 4, a power is one if there is any. -/
def sqrt? (a : FieldElement) : Option FieldElement :=
  let r := pow a 256 ((prime + 1) / 4)
  if r * r = a then some r else none

def isEven (a : FieldElement) : Bool := a.val % 2 == 0

end FieldElement

end SealedMessage.Curve
