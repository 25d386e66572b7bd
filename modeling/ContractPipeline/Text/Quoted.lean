import ContractPipeline.Text.Utf8
import ContractPipeline.Text.Unprintable

/-! Quoted text, as messages show names and paths: between double quotes, with a backslash before
quotes and backslashes, and with escapes for the characters that cannot be seen. -/
namespace ContractPipeline.Text

def quoteChar (c : Char) : List Char :=
  match c with
  | '"' => ['\\', '"']
  | '\\' => ['\\', '\\']
  | '\t' => ['\\', 't']
  | '\n' => ['\\', 'n']
  | '\r' => ['\\', 'r']
  | c =>
    if c.toNat = 0 then ['\\', '0']
    else if isUnprintable c then
      ['\\', 'u', '\x7b'] ++ Nat.toDigits 16 c.toNat ++ ['\x7d']
    else [c]

def quoteChars (text : List Char) : List Char :=
  '"' :: text.flatMap quoteChar ++ ['"']

def quote (s : String) : String :=
  String.ofList (quoteChars s.toList)

/-- A byte that belongs to no character, inside a quoted text. -/
def quoteByte (byte : UInt8) : List Char :=
  ['\\', 'x', (byte.toNat / 16).digitChar.toUpper, (byte.toNat % 16).digitChar.toUpper]

def quotePiece : Utf8.Piece → List Char
  | .char c => quoteChar c
  | .broken bytes => bytes.flatMap quoteByte

/-- A byte sequence between quotes, as a text as far as it is one. -/
def quoteBytes (bytes : Bytes) : String :=
  String.ofList ('"' :: (Utf8.pieces bytes).flatMap quotePiece ++ ['"'])

end ContractPipeline.Text
