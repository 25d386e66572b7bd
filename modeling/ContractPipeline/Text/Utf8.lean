import ContractPipeline.Bytes

/-! UTF-8: the bytes of a text, and the text of a byte sequence, either strictly or with U+FFFD
in the place of each run of bytes that begins no character. -/
namespace ContractPipeline.Text.Utf8

def encodeChar (c : Char) : Bytes :=
  let n := c.toNat
  if n < 0x80 then [UInt8.ofNat n]
  else if n < 0x800 then [UInt8.ofNat (0xC0 + n / 64), UInt8.ofNat (0x80 + n % 64)]
  else if n < 0x10000 then
    [UInt8.ofNat (0xE0 + n / 4096), UInt8.ofNat (0x80 + n / 64 % 64), UInt8.ofNat (0x80 + n % 64)]
  else
    [UInt8.ofNat (0xF0 + n / 262144), UInt8.ofNat (0x80 + n / 4096 % 64),
      UInt8.ofNat (0x80 + n / 64 % 64), UInt8.ofNat (0x80 + n % 64)]

def encode (text : List Char) : Bytes :=
  text.flatMap encodeChar

/-- Where a reader stands: between characters, or inside one of which `bits` are known and `more`
further bytes are due after the next, which has to lie between `low` and `high`. -/
inductive State
  | between
  | inside (more low high bits : Nat)

inductive Step
  | char (c : Char)
  | goOn (state : State)
  | refused

/-- The byte that begins a character: its length, the range of the byte after it, its bits. -/
def begin (byte : Nat) : Step :=
  if byte < 0x80 then .char (Char.ofNat byte)
  else if byte < 0xC2 then .refused
  else if byte < 0xE0 then .goOn (.inside 0 0x80 0xBF (byte - 0xC0))
  else if byte < 0xF0 then
    .goOn (.inside 1 (if byte = 0xE0 then 0xA0 else 0x80) (if byte = 0xED then 0x9F else 0xBF)
      (byte - 0xE0))
  else if byte < 0xF5 then
    .goOn (.inside 2 (if byte = 0xF0 then 0x90 else 0x80) (if byte = 0xF4 then 0x8F else 0xBF)
      (byte - 0xF0))
  else .refused

/-- A byte after the first: six more bits, and the character once no byte is due. -/
def advance (more low high bits byte : Nat) : Step :=
  if low ≤ byte ∧ byte ≤ high then
    let bits := 64 * bits + (byte - 0x80)
    match more with
    | 0 => .char (Char.ofNat bits)
    | more + 1 => .goOn (.inside more 0x80 0xBF bits)
  else .refused

def step (byte : Nat) : State → Step
  | .between => begin byte
  | .inside more low high bits => advance more low high bits byte

def decodeFrom? : State → Bytes → Option (List Char)
  | .between, [] => some []
  | .inside .., [] => none
  | state, byte :: rest =>
    match step byte.toNat state with
    | .char c => (decodeFrom? .between rest).map (c :: ·)
    | .goOn next => decodeFrom? next rest
    | .refused => none

def decode? (bytes : Bytes) : Option (List Char) :=
  decodeFrom? .between bytes

/-- A character, or a longest run of bytes that begins one and is not gone on with as it has to be. -/
inductive Piece
  | char (c : Char)
  | broken (bytes : Bytes)

/-- The pieces of a byte sequence from a state on, in which some bytes of a character are read. A byte
that cannot continue the character breaks the run before it and is looked at again as the beginning
of a new one. -/
def piecesFrom : State → (read : Bytes) → Bytes → List Piece
  | .between, _, [] => []
  | .inside .., read, [] => [.broken read]
  | .between, _, byte :: rest =>
    match begin byte.toNat with
    | .char c => .char c :: piecesFrom .between [] rest
    | .goOn next => piecesFrom next [byte] rest
    | .refused => .broken [byte] :: piecesFrom .between [] rest
  | .inside more low high bits, read, byte :: rest =>
    match advance more low high bits byte.toNat with
    | .char c => .char c :: piecesFrom .between [] rest
    | .goOn next => piecesFrom next (read ++ [byte]) rest
    | .refused =>
      .broken read ::
        match begin byte.toNat with
        | .char c => .char c :: piecesFrom .between [] rest
        | .goOn next => piecesFrom next [byte] rest
        | .refused => .broken [byte] :: piecesFrom .between [] rest

def pieces (bytes : Bytes) : List Piece :=
  piecesFrom .between [] bytes

def replacement : Char := Char.ofNat 0xFFFD

def Piece.toChar : Piece → Char
  | .char c => c
  | .broken _ => replacement

/-- The text of a byte sequence, with the replacement character for each broken run. -/
def decodeLossy (bytes : Bytes) : List Char :=
  (pieces bytes).map Piece.toChar

end ContractPipeline.Text.Utf8

namespace ContractPipeline

def Bytes.ofString (s : String) : Bytes :=
  Text.Utf8.encode s.toList

@[simp] theorem Bytes.ofString_append (s t : String) :
    ofString (s ++ t) = ofString s ++ ofString t := by
  simp [ofString, Text.Utf8.encode]

def Bytes.toString? (bytes : Bytes) : Option String :=
  (Text.Utf8.decode? bytes).map String.ofList

def Bytes.toStringLossy (bytes : Bytes) : String :=
  String.ofList (Text.Utf8.decodeLossy bytes)

end ContractPipeline
