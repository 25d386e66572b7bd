/-! The prime field of secp256k1. -/
namespace ContractPipeline.Curve

def fieldOrder : Nat :=
  0xfffffffffffffffffffffffffffffffffffffffffffffffffffffffefffffc2f

instance : @NeZero Nat Zero.ofOfNat0 fieldOrder :=
  ⟨by decide⟩

abbrev Element := Fin fieldOrder

namespace Element

/-- The element with a given number, if the number is below the order of the field. -/
def ofNat? (n : Nat) : Option Element :=
  if h : n < fieldOrder then some ⟨n, h⟩ else none

/-- A power whose exponent has at most the given number of binary digits. -/
def powerBits (a : Element) : (digits exponent : Nat) → Element
  | 0, _ => 1
  | digits + 1, exponent =>
    let half := powerBits (a * a) digits (exponent / 2)
    if exponent % 2 = 1 then a * half else half

/-- A power with an exponent below the order of the field. -/
def power (a : Element) (exponent : Nat) : Element :=
  a.powerBits 256 exponent

/-- The inverse of an element other than zero. -/
def inverse (a : Element) : Element :=
  a.power (fieldOrder - 2)

/-- A square root. The order is three modulo four, so this power of a square is one of its
roots. -/
def root? (a : Element) : Option Element :=
  let root := a.power ((fieldOrder + 1) / 4)
  if root * root = a then some root else none

/-- Whether the number of an element is odd; an element other than zero and its negative
differ in this. -/
def isOdd (a : Element) : Bool :=
  a.val % 2 == 1

end Element

end ContractPipeline.Curve
