import ContractPipeline.Address
import ContractPipeline.Curve.Point

/-! Signing keys: secrets, the public keys that belong to them, and their encodings. -/
namespace ContractPipeline

/-- A number between zero and the order of the group, both excluded. -/
structure SecretKey where
  value : Nat
  value_pos : 0 < value
  value_lt : value < Curve.Point.groupOrder
  deriving DecidableEq

namespace SecretKey

def ofNat? (n : Nat) : Option SecretKey :=
  if h : 0 < n ∧ n < Curve.Point.groupOrder then some ⟨n, h.1, h.2⟩ else none

def ofBytes? (bytes : Bytes) : Option SecretKey :=
  if bytes.length = 32 then ofNat? bytes.toNat else none

def toBytes (secret : SecretKey) : Bytes :=
  Bytes.ofNat 32 secret.value

end SecretKey

/-- The coordinates of a point. -/
structure PublicKey where
  x : Curve.Element
  y : Curve.Element
  deriving DecidableEq

namespace PublicKey

/-- The key of a point. The neutral point, which no secret leads to, is given coordinates off the
curve. -/
def ofPoint : Curve.Point → PublicKey
  | .infinity => ⟨0, 0⟩
  | .affine x y => ⟨x, y⟩

/-- The generator times a secret. -/
def ofSecret (secret : SecretKey) : PublicKey :=
  ofPoint (Curve.Point.timesGenerator secret.value)

def coordinates (key : PublicKey) : Bytes :=
  Bytes.ofNat 32 key.x.val ++ Bytes.ofNat 32 key.y.val

/-- The short form: a byte for the parity of the second coordinate, and the first coordinate. -/
def toBytes (key : PublicKey) : Bytes :=
  (if key.y.isOdd then 3 else 2) :: Bytes.ofNat 32 key.x.val

/-- The point of the curve with this first coordinate and a second one of this parity. -/
def ofFirst? (odd : Bool) (bytes : Bytes) : Option PublicKey := do
  let x ← Curve.Element.ofNat? bytes.toNat
  let y ← Curve.Element.root? (x * x * x + 7)
  return ⟨x, if y.isOdd = odd then y else -y⟩

def ofCoordinates? (bytes : Bytes) : Option PublicKey := do
  let x ← Curve.Element.ofNat? (Bytes.toNat (bytes.take 32))
  let y ← Curve.Element.ofNat? (Bytes.toNat (bytes.drop 32))
  if Curve.onCurve x y then some ⟨x, y⟩ else none

/-- Reads the short form, the long form of both coordinates, or the mixed form, which has both
coordinates and the parity. -/
def ofBytes? : Bytes → Option PublicKey
  | [] => none
  | tag :: rest =>
    if rest.length = 32 then
      if tag = 2 ∨ tag = 3 then ofFirst? (tag == 3) rest else none
    else if rest.length = 64 then
      if tag = 4 then ofCoordinates? rest
      else if tag = 6 ∨ tag = 7 then
        (ofCoordinates? rest).filter fun key => key.y.isOdd == (tag == 7)
      else none
    else none

def address (key : PublicKey) : Address :=
  .ofMessage key.coordinates

end PublicKey

structure KeyPair where
  secret : SecretKey
  publicKey : PublicKey
  deriving DecidableEq

namespace KeyPair

def ofSecret (secret : SecretKey) : KeyPair :=
  ⟨secret, .ofSecret secret⟩

def address (pair : KeyPair) : Address :=
  pair.publicKey.address

end KeyPair

end ContractPipeline
