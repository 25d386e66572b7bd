/-! JSON values and their two written forms: compact, and pretty with two spaces for each level.
Members keep their order. -/
namespace ContractPipeline.Json

/-- A JSON value whose numbers are natural. -/
inductive Value
  | null
  | bool (b : Bool)
  | number (n : Nat)
  | text (s : String)
  | list (items : List Value)
  | record (members : List (String × Value))
  deriving Inhabited

namespace Value

def ofText? : Option String → Value
  | none => .null
  | some s => .text s

def ofNumber? : Option Nat → Value
  | none => .null
  | some n => .number n

end Value

/-- A character inside a string: quotes, backslashes and controls are escaped, all else is raw. -/
def escapeChar (c : Char) : List Char :=
  match c with
  | '"' => ['\\', '"']
  | '\\' => ['\\', '\\']
  | '\x08' => ['\\', 'b']
  | '\x0c' => ['\\', 'f']
  | '\n' => ['\\', 'n']
  | '\r' => ['\\', 'r']
  | '\t' => ['\\', 't']
  | c =>
    if c.toNat < 0x20 then
      ['\\', 'u', '0', '0', Nat.digitChar (c.toNat / 16), Nat.digitChar (c.toNat % 16)]
    else [c]

def writeText (s : String) : List Char :=
  '"' :: s.toList.flatMap escapeChar ++ ['"']

def writeBool (b : Bool) : List Char :=
  (if b then "true" else "false").toList

mutual

def compact : Value → List Char
  | .null => "null".toList
  | .bool b => writeBool b
  | .number n => Nat.toDigits 10 n
  | .text s => writeText s
  | .list items => '[' :: compactItems items ++ [']']
  | .record members => '\x7b' :: compactMembers members ++ ['\x7d']

def compactItems : List Value → List Char
  | [] => []
  | [item] => compact item
  | item :: items => compact item ++ ',' :: compactItems items

def compactMembers : List (String × Value) → List Char
  | [] => []
  | [(key, value)] => writeText key ++ ':' :: compact value
  | (key, value) :: members =>
    writeText key ++ ':' :: compact value ++ ',' :: compactMembers members

end

def newline (level : Nat) : List Char :=
  '\n' :: List.replicate (2 * level) ' '

mutual

/-- A value at a level, each item and member on a line of its own. -/
def pretty (level : Nat) : Value → List Char
  | .null => "null".toList
  | .bool b => writeBool b
  | .number n => Nat.toDigits 10 n
  | .text s => writeText s
  | .list [] => ['[', ']']
  | .list items => '[' :: prettyItems (level + 1) items ++ newline level ++ [']']
  | .record [] => ['\x7b', '\x7d']
  | .record members => '\x7b' :: prettyMembers (level + 1) members ++ newline level ++ ['\x7d']

def prettyItems (level : Nat) : List Value → List Char
  | [] => []
  | [item] => newline level ++ pretty level item
  | item :: items => newline level ++ pretty level item ++ ',' :: prettyItems level items

def prettyMembers (level : Nat) : List (String × Value) → List Char
  | [] => []
  | [(key, value)] => newline level ++ writeText key ++ ':' :: ' ' :: pretty level value
  | (key, value) :: members =>
    newline level ++ writeText key ++ ':' :: ' ' :: pretty level value ++
      ',' :: prettyMembers level members

end

def Value.toCompact (value : Value) : String :=
  String.ofList (compact value)

def Value.toPretty (value : Value) : String :=
  String.ofList (pretty 0 value)

end ContractPipeline.Json
