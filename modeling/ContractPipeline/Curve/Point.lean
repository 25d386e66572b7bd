import ContractPipeline.Curve.Field

/-! The group of the points of secp256k1, written with two coordinates. -/
namespace ContractPipeline.Curve

/-- A point: the neutral one, or one with coordinates. -/
inductive Point
  | infinity
  | affine (x y : Element)
  deriving DecidableEq

def onCurve (x y : Element) : Bool :=
  y * y == x * x * x + 7

namespace Point

/-- The third point on a line through two points, mirrored at the axis. -/
def chord (slope x₁ y₁ x₂ : Element) : Point :=
  let x := slope * slope - x₁ - x₂
  .affine x (slope * (x₁ - x) - y₁)

def double : Point → Point
  | .infinity => .infinity
  | .affine x y =>
    if y = 0 then .infinity else chord (3 * x * x * Element.inverse (2 * y)) x y x

def add : Point → Point → Point
  | .infinity, q => q
  | p, .infinity => p
  | .affine x₁ y₁, .affine x₂ y₂ =>
    if x₁ = x₂ then
      if y₁ = y₂ then double (.affine x₁ y₁) else .infinity
    else chord ((y₂ - y₁) * Element.inverse (x₂ - x₁)) x₁ y₁ x₂

/-- A point, its double, and so on: as many points as asked for. -/
def doublings : Nat → Point → List Point
  | 0, _ => []
  | count + 1, p => p :: doublings count p.double

/-- The sum of those points of a list that the binary digits of a number select, the last digit
belonging to the first point. -/
def select : List Point → Nat → Point
  | [], _ => .infinity
  | p :: ps, n => if n % 2 = 1 then p.add (select ps (n / 2)) else select ps (n / 2)

def groupOrder : Nat :=
  0xfffffffffffffffffffffffffffffffebaaedce6af48a03bbfd25e8cd0364141

def generator : Point :=
  .affine
    0x79be667ef9dcbbac55a06295ce870b07029bfcdb2dce28d959f2815b16f81798
    0x483ada7726a3c4655da4fbfc0e1108a8fd17b448a68554199c47d08ffb10d4b8

/-- The generator times each power of two below `2 ^ 256`. -/
def generatorDoublings : List Point :=
  doublings 256 generator

/-- The multiple of the generator by a number below `2 ^ 256`. -/
def timesGenerator (n : Nat) : Point :=
  select generatorDoublings n

end Point

end ContractPipeline.Curve
