import ContractPipeline.Text.Integer

/-! Numerals of JSON texts: reading them character by character, and whether they denote a finite
double-precision number. -/
namespace ContractPipeline.Json

/-- The digits of a numeral before and after the point and in the exponent, the latest in front,
and the sign of the exponent. -/
structure Numeral where
  whole : List Char
  fraction : List Char
  exponentNegative : Bool
  exponent : List Char
  deriving DecidableEq, Repr

inductive NumeralPhase
  | sign
  | zero
  | whole
  | point
  | fraction
  | mark
  | exponentSign
  | exponent
  deriving DecidableEq, Repr

def NumeralPhase.isComplete : NumeralPhase → Bool
  | .zero | .whole | .fraction | .exponent => true
  | .sign | .point | .mark | .exponentSign => false

structure NumeralReader where
  phase : NumeralPhase
  numeral : Numeral
  deriving DecidableEq, Repr

namespace NumeralReader

def negative : NumeralReader :=
  ⟨.sign, ⟨[], [], false, []⟩⟩

/-- The first digit of the whole part. A zero stands alone. -/
def ofDigit (digit : Char) : NumeralReader :=
  ⟨if digit = '0' then .zero else .whole, ⟨[digit], [], false, []⟩⟩

def feed (reader : NumeralReader) (c : Char) : Option NumeralReader :=
  let numeral := reader.numeral
  let wholeDigit := some ⟨.whole, { numeral with whole := c :: numeral.whole }⟩
  let fractionDigit := some ⟨.fraction, { numeral with fraction := c :: numeral.fraction }⟩
  let exponentDigit := some ⟨.exponent, { numeral with exponent := c :: numeral.exponent }⟩
  let isMark := c == 'e' || c == 'E'
  match reader.phase with
  | .sign => if c.isDigit then some (ofDigit c) else none
  | .zero =>
    if c = '.' then some ⟨.point, numeral⟩ else if isMark then some ⟨.mark, numeral⟩ else none
  | .whole =>
    if c.isDigit then wholeDigit
    else if c = '.' then some ⟨.point, numeral⟩
    else if isMark then some ⟨.mark, numeral⟩ else none
  | .point => if c.isDigit then fractionDigit else none
  | .fraction =>
    if c.isDigit then fractionDigit else if isMark then some ⟨.mark, numeral⟩ else none
  | .mark =>
    if c.isDigit then exponentDigit
    else if c = '+' then some ⟨.exponentSign, numeral⟩
    else if c = '-' then some ⟨.exponentSign, { numeral with exponentNegative := true }⟩ else none
  | .exponentSign | .exponent => if c.isDigit then exponentDigit else none

/-- Whether a numeral ends before a character that does not belong to it. A digit cannot follow a
zero that stands alone. -/
def endsBefore (reader : NumeralReader) (c : Char) : Bool :=
  reader.phase.isComplete && !(reader.phase == .zero && c.isDigit)

end NumeralReader

/-- The greatest significand that is kept exactly; digits beyond it only scale. -/
def significandLimit : Nat := 18446744073709551615

/-- The significand and the decimal exponent of the digits before the exponent part. A digit that
would carry the significand over its limit is dropped, together with all after it. -/
def takeDigits (significand : Nat) (scale : Int) (dropScale keepScale : Int) :
    List Char → Nat × Int
  | [] => (significand, scale)
  | c :: rest =>
    let next := 10 * significand + (c.toNat - 48)
    if significandLimit < next then (significand, scale + dropScale * (rest.length + 1))
    else takeDigits next (scale + keepScale) dropScale keepScale rest

/-- A natural number rounded to 53 binary digits, ties to even. -/
def roundToDouble (n : Nat) : Nat :=
  let excess := Nat.log2 n + 1 - 53
  let unit := Nat.pow 2 excess
  let quotient := n / unit
  let remainder := 2 * (n % unit)
  let up := unit < remainder || (remainder == unit && quotient % 2 == 1)
  (if up then quotient + 1 else quotient) * unit

/-- The least magnitude that rounds beyond the greatest double. -/
def overflowBound : Nat := Nat.pow 2 1024 - Nat.pow 2 970

/-- Whether a significand times a power of ten stays within the doubles; a power beyond the 308th
is too large for any significand but zero. -/
def scalesToFinite (significand : Nat) (scale : Int) : Bool :=
  significand == 0 || scale < 0 ||
    (scale ≤ 308 &&
      roundToDouble significand * roundToDouble (Nat.pow 10 scale.toNat) < overflowBound)

def Numeral.isFinite (numeral : Numeral) : Bool :=
  let (significand, scale) := takeDigits 0 0 1 0 numeral.whole.reverse
  let (significand, scale) := takeDigits significand scale 0 (-1) numeral.fraction.reverse
  let exponent : Int := Text.digitsValue numeral.exponent.reverse
  scalesToFinite significand (if numeral.exponentNegative then scale - exponent else scale + exponent)

end ContractPipeline.Json
