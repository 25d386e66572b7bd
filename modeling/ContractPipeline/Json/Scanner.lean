import ContractPipeline.Bytes
import ContractPipeline.Json.Numeral
import ContractPipeline.Text.Utf8

/-! Tokens of JSON texts, read character by character. What a text ends in is kept, so that a text
that was cut short can be told from one that is malformed. -/
namespace ContractPipeline.Json

/-- A token. Of a number, only whether it is a finite double is kept; a string that holds half of
a surrogate pair has no text. -/
inductive Token
  | openRecord
  | closeRecord
  | openList
  | closeList
  | colon
  | comma
  | null
  | bool (b : Bool)
  | number (isFinite : Bool)
  | text (text? : Option String)
  deriving DecidableEq, Repr

/-- A string that is being read: its characters, the latest in front; the first half of a surrogate
pair that waits for the second; and whether some half has stayed alone. -/
structure Literal where
  chars : List Char
  pending : Option Nat
  broken : Bool
  deriving DecidableEq, Repr

namespace Literal

def empty : Literal :=
  ⟨[], none, false⟩

def push (literal : Literal) (c : Char) : Literal :=
  ⟨c :: literal.chars, none, literal.broken || literal.pending.isSome⟩

def isHigh (unit : Nat) : Bool :=
  0xD800 ≤ unit && unit < 0xDC00

def isLow (unit : Nat) : Bool :=
  0xDC00 ≤ unit && unit < 0xE000

def pair (high low : Nat) : Char :=
  Char.ofNat (0x10000 + 0x400 * (high - 0xD800) + (low - 0xDC00))

def pushUnit (literal : Literal) (unit : Nat) : Literal :=
  match literal.pending with
  | some high =>
    if isLow unit then ⟨pair high unit :: literal.chars, none, literal.broken⟩
    else { literal with broken := true }
  | none =>
    if isHigh unit then { literal with pending := some unit }
    else if isLow unit then { literal with broken := true }
    else literal.push (Char.ofNat unit)

def text? (literal : Literal) : Option String :=
  if literal.broken || literal.pending.isSome then none
  else some (String.ofList literal.chars.reverse)

end Literal

/-- Where a scanner stands: between tokens; in a word of which some characters are due; in a
numeral; in a string, after a backslash in it, or among the digits of a unit in it. -/
inductive Scanner
  | between
  | word (token : Token) (due : List Char)
  | numeral (reader : NumeralReader)
  | text (literal : Literal)
  | escape (literal : Literal)
  | unit (literal : Literal) (digits : List Char)
  deriving DecidableEq, Repr

/-- The tokens that a character completes, and where the scanner stands after it, which is nowhere
if the character cannot stand here. -/
structure Scanned where
  tokens : List Token
  scanner? : Option Scanner
  deriving DecidableEq, Repr

namespace Scanned

def into (scanner : Scanner) : Scanned :=
  ⟨[], some scanner⟩

def done (token : Token) : Scanned :=
  ⟨[token], some .between⟩

def malformed : Scanned :=
  ⟨[], none⟩

end Scanned

namespace Scanner

def isBlank (c : Char) : Bool :=
  c == ' ' || c == '\t' || c == '\n' || c == '\r'

def feedBetween (c : Char) : Scanned :=
  match c with
  | '\x7b' => .done .openRecord
  | '\x7d' => .done .closeRecord
  | '[' => .done .openList
  | ']' => .done .closeList
  | ':' => .done .colon
  | ',' => .done .comma
  | 'n' => .into (.word .null ['u', 'l', 'l'])
  | 't' => .into (.word (.bool true) ['r', 'u', 'e'])
  | 'f' => .into (.word (.bool false) ['a', 'l', 's', 'e'])
  | '"' => .into (.text .empty)
  | '-' => .into (.numeral .negative)
  | c =>
    if c.isDigit then .into (.numeral (.ofDigit c))
    else if isBlank c then .into .between else .malformed

def feedWord (token : Token) (c : Char) : List Char → Scanned
  | [] => .malformed
  | [d] => if c = d then .done token else .malformed
  | d :: due => if c = d then .into (.word token due) else .malformed

def feedNumeral (reader : NumeralReader) (c : Char) : Scanned :=
  match reader.feed c with
  | some reader => .into (.numeral reader)
  | none =>
    if reader.endsBefore c then
      let scanned := feedBetween c
      { scanned with tokens := .number reader.numeral.isFinite :: scanned.tokens }
    else .malformed

def feedText (literal : Literal) (c : Char) : Scanned :=
  if c = '"' then .done (.text literal.text?)
  else if c = '\\' then .into (.escape literal)
  else if c.toNat < 0x20 then .malformed
  else .into (.text (literal.push c))

def feedEscape (literal : Literal) (c : Char) : Scanned :=
  match c with
  | '"' => .into (.text (literal.push '"'))
  | '\\' => .into (.text (literal.push '\\'))
  | '/' => .into (.text (literal.push '/'))
  | 'b' => .into (.text (literal.push '\x08'))
  | 'f' => .into (.text (literal.push '\x0c'))
  | 'n' => .into (.text (literal.push '\n'))
  | 'r' => .into (.text (literal.push '\r'))
  | 't' => .into (.text (literal.push '\t'))
  | 'u' => .into (.unit literal [])
  | _ => .malformed

/-- The number of four hexadecimal digits, the latest in front. -/
def unitValue? : List Char → Option Nat
  | [d, c, b, a] => do
    let a ← Bytes.hexValue? a
    let b ← Bytes.hexValue? b
    let c ← Bytes.hexValue? c
    let d ← Bytes.hexValue? d
    return 4096 * a + 256 * b + 16 * c + d
  | _ => none

/-- A character among the digits of a unit, which take four bytes. -/
def feedUnit (literal : Literal) (digits : List Char) (c : Char) : Scanned :=
  let digits := c :: digits
  if (Text.Utf8.encode digits).length < 4 then .into (.unit literal digits)
  else
    match unitValue? digits with
    | some value => .into (.text (literal.pushUnit value))
    | none => .malformed

def feed (scanner : Scanner) (c : Char) : Scanned :=
  match scanner with
  | .between => feedBetween c
  | .word token due => feedWord token c due
  | .numeral reader => feedNumeral reader c
  | .text literal => feedText literal c
  | .escape literal => feedEscape literal c
  | .unit literal digits => feedUnit literal digits c

end Scanner

/-- What a text ends in: nothing after the last token, a number that is complete, or part of a
token. A string is broken if what was read of it cannot become a text any more. -/
inductive Ending
  | clean
  | number (isFinite : Bool)
  | partWord
  | partNumber
  | partText (broken : Bool)
  deriving DecidableEq, Repr

def Scanner.ending : Scanner → Ending
  | .between => .clean
  | .word _ _ => .partWord
  | .numeral reader =>
    if reader.phase.isComplete then .number reader.numeral.isFinite else .partNumber
  | .text literal | .escape literal | .unit literal _ => .partText literal.broken

end ContractPipeline.Json
