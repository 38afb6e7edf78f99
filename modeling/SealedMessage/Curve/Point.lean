import SealedMessage.Curve.Field

/-! The points of the curve y² = x³ + 7, their sums and their multiples. -/

namespace SealedMessage.Curve

inductive Point where
  | infinity
  | affine (x y : FieldElement)
  deriving DecidableEq, Repr

/-- The side of the curve's equation that depends on `x`. -/
def cubic (x : FieldElement) : FieldElement := x * x * x + 7

namespace Point

def OnCurve : Point → Prop
  | infinity => True
  | affine x y => y * y = cubic x

/-- The slope of the line through two points that are not opposite, or of the tangent. -/
def slope (x₁ y₁ x₂ y₂ : FieldElement) : FieldElement :=
  if x₁ = x₂ then 3 * x₁ * x₁ * (y₁ + y₁).inverse
  else (y₁ - y₂) * (x₁ - x₂).inverse

def add : Point → Point → Point
  | infinity, q => q
  | p, infinity => p
  | affine x₁ y₁, affine x₂ y₂ =>
    if x₁ = x₂ ∧ y₁ = -y₂ then infinity
    else
      let s := slope x₁ y₁ x₂ y₂
      let x := s * s - x₁ - x₂
      affine x (s * (x₁ - x) - y₁)

instance : Add Point := ⟨add⟩

/-- The multiple by the low `bits` binary digits of `k`. -/
def scale (p : Point) : Nat → Nat → Point
  | 0, _ => infinity
  | bits + 1, k =>
    let half := scale p bits (k / 2)
    if k % 2 = 1 then half + half + p else half + half

/-- The point with abscissa `x` and an even ordinate. -/
def lift? (x : FieldElement) : Option Point :=
  match (cubic x).sqrt? with
  | some y => some (affine x (if y.isEven then y else -y))
  | none => none

def generator : Point :=
  affine
    (FieldElement.ofNat 0x79be667ef9dcbbac55a06295ce870b07029bfcdb2dce28d959f2815b16f81798)
    (FieldElement.ofNat 0x483ada7726a3c4655da4fbfc0e1108a8fd17b448a68554199c47d08ffb10d4b8)

end Point

/-- The number of points, which is a prime. -/
def order : Nat := 0xfffffffffffffffffffffffffffffffebaaedce6af48a03bbfd25e8cd0364141

end SealedMessage.Curve
