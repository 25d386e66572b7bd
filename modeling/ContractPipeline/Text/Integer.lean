/-! Integers of a fixed width as decimal text: an optional sign, then one or more ASCII digits,
and nothing else. -/
namespace ContractPipeline.Text

/-- The integer types that variables are read at. -/
inductive IntegerKind
  | u8
  | u16
  | u32
  | u64
  | i32
  | i64
  deriving DecidableEq, Repr

namespace IntegerKind

/-- Whether the type has negative values, and with them a minus sign. -/
def signed : IntegerKind → Bool
  | .i32 | .i64 => true
  | .u8 | .u16 | .u32 | .u64 => false

def least : IntegerKind → Int
  | .i32 => -2147483648
  | .i64 => -9223372036854775808
  | .u8 | .u16 | .u32 | .u64 => 0

def greatest : IntegerKind → Int
  | .u8 => 255
  | .u16 => 65535
  | .u32 => 4294967295
  | .u64 => 18446744073709551615
  | .i32 => 2147483647
  | .i64 => 9223372036854775807

end IntegerKind

def digitsValue (digits : List Char) : Nat :=
  digits.foldl (fun value digit => 10 * value + (digit.toNat - 48)) 0

/-- The number of a nonempty run of ASCII digits. -/
def readDigits? (text : List Char) : Option Nat :=
  if text.isEmpty || !text.all Char.isDigit then none else some (digitsValue text)

/-- The integer that a text denotes, whatever its size. -/
def readSigned? (signed : Bool) : List Char → Option Int
  | '+' :: digits => (readDigits? digits).map Int.ofNat
  | '-' :: digits => if signed then (readDigits? digits).map fun n => -(n : Int) else none
  | digits => (readDigits? digits).map Int.ofNat

/-- The integer that a text denotes, if it lies in the range of its type. -/
def readInteger? (kind : IntegerKind) (text : List Char) : Option Int :=
  (readSigned? kind.signed text).filter fun n => kind.least ≤ n && n ≤ kind.greatest

end ContractPipeline.Text
