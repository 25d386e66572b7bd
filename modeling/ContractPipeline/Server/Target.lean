import ContractPipeline.Text.Utf8

/-! Request targets: a path with a query, a full address with a path, a bare authority, or an
asterisk. Only the path matters for what is served. -/
namespace ContractPipeline.Server

/-- Whether a byte may stand in an authority, percent signs apart. -/
def isUriByte (byte : UInt8) : Bool :=
  let c := Char.ofNat byte.toNat
  byte < 0x80 && (c.isAlphanum || "!$&'()*+,-.:;=@[]_~".toList.contains c)

def endsAuthority (byte : UInt8) : Bool :=
  byte == 0x2F || byte == 0x3F || byte == 0x23

/-- What was seen of an authority: colons and percent signs since the last bracket or at sign,
brackets, and whether an at sign came last. -/
structure AuthorityScan where
  colons : Nat
  percent : Bool
  opened : Bool
  closed : Bool
  atLast : Bool

namespace AuthorityScan

def initial : AuthorityScan :=
  ⟨0, false, false, false, false⟩

/-- One more byte, unless it cannot stand here. -/
def feed (scan : AuthorityScan) (byte : UInt8) : Option AuthorityScan :=
  let plain := { scan with atLast := false }
  match Char.ofNat byte.toNat with
  | ':' => if scan.colons < 8 then some { plain with colons := scan.colons + 1 } else none
  | '[' => if scan.percent || scan.opened then none else some { plain with opened := true }
  | ']' =>
    if scan.opened && !scan.closed then
      some { plain with closed := true, colons := 0, percent := false }
    else none
  | '@' => some { scan with atLast := true, colons := 0, percent := false }
  | '%' => some { plain with percent := true }
  | _ => if isUriByte byte then some plain else none

def isComplete (scan : AuthorityScan) : Bool :=
  scan.opened == scan.closed && scan.colons ≤ 1 && !scan.atLast && !scan.percent

end AuthorityScan

def isAuthority (bytes : Bytes) : Bool :=
  match bytes.foldlM AuthorityScan.feed .initial with
  | some scan => !bytes.isEmpty && scan.isComplete
  | none => false

def isPathByte (byte : UInt8) : Bool :=
  byte == 0x21 || byte == 0x22 || (0x24 ≤ byte && byte ≤ 0x3B) || byte == 0x3D ||
    (0x40 ≤ byte && byte ≤ 0x5F) || (0x61 ≤ byte && byte != 0x7F)

def isQueryByte (byte : UInt8) : Bool :=
  byte == 0x21 || (0x24 ≤ byte && byte ≤ 0x3B) || byte == 0x3D || (0x3F ≤ byte && byte != 0x7F)

/-- The path of what follows an authority, unless a byte in it, or in its query, is not allowed. A
fragment is not looked at. -/
def pathOf? (bytes : Bytes) : Option Bytes :=
  let kept := bytes.takeWhile (· != 0x23)
  let path := kept.takeWhile (· != 0x3F)
  let query := (kept.dropWhile (· != 0x3F)).drop 1
  if path.all isPathByte && query.all isQueryByte then
    some (if path.isEmpty then [0x2F] else path)
  else none

def isSchemeByte (byte : UInt8) : Bool :=
  let c := Char.ofNat byte.toNat
  byte < 0x80 && (c.isAlphanum || "+-.~".toList.contains c)

def slashes : Bytes := [0x2F, 0x2F]

def afterScheme? (bytes : Bytes) : Option Bytes :=
  match bytes.dropWhile isSchemeByte with
  | 0x3A :: rest => if slashes.isPrefixOf rest then some (rest.drop 2) else none
  | _ => none

def schemeLimit : Nat := 64

def addressPath? (bytes : Bytes) : Option Bytes :=
  if isAuthority (bytes.takeWhile (!endsAuthority ·)) then
    pathOf? (bytes.dropWhile (!endsAuthority ·))
  else none

def targetLimit : Nat := 65534

/-- The path of a target, which is empty for a bare authority and an asterisk for an asterisk. -/
def targetPath? (bytes : Bytes) : Option Bytes :=
  if targetLimit < bytes.length then none
  else if bytes = [0x2A] then some bytes
  else if bytes.head? = some 0x2F then pathOf? bytes
  else
    match afterScheme? bytes with
    | some rest =>
      if schemeLimit < (bytes.takeWhile isSchemeByte).length then none else addressPath? rest
    | none => if isAuthority bytes then some [] else none

end ContractPipeline.Server
