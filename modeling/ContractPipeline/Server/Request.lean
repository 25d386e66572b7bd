import ContractPipeline.Server.Target

/-! Requests to the server. -/
namespace ContractPipeline.Server

/-- A request, of which the method and the path matter. -/
structure Request where
  method : String
  path : Bytes
  deriving DecidableEq, Repr

namespace Request

def isTokenChar (c : Char) : Bool :=
  c.isAlphanum || "!#$%&'*+-.^_`|~".toList.contains c

def isToken (text : String) : Bool :=
  text ≠ "" && text.toList.all isTokenChar

def isValueByte (byte : UInt8) : Bool :=
  byte == 0x09 || (0x20 ≤ byte && byte != 0x7F)

def headerNameLimit : Nat := 65535

def isHeader (header : String × String) : Bool :=
  isToken header.1 && header.1.length ≤ headerNameLimit && (Bytes.ofString header.2).all isValueByte

def make? (method target : String) (headers : List (String × String)) : Option Request := do
  let path ← targetPath? (.ofString target)
  if isToken method && headers.all isHeader then some ⟨method, path⟩ else none

end Request

end ContractPipeline.Server
