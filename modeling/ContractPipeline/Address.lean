import ContractPipeline.Hash.Keccak
import ContractPipeline.Text.Utf8

/-! Account addresses and their text, in which the case of the letters is a checksum. -/
namespace ContractPipeline

structure Address where
  bytes : Bytes
  length_bytes : bytes.length = 20
  deriving DecidableEq

namespace Address

def ofBytes? (bytes : Bytes) : Option Address :=
  if h : bytes.length = 20 then some ⟨bytes, h⟩ else none

/-- The last twenty bytes of a digest of 32. -/
def ofMessage (message : Bytes) : Address where
  bytes := (Hash.Keccak.hash message).drop 12
  length_bytes := by simp [Hash.Keccak.length_hash]

/-- A digit, a letter in upper case if the half byte of the digest beside it is at least eight. -/
def mark (digit : Char) (nibble : Nat) : Char :=
  if 8 ≤ nibble then digit.toUpper else digit

/-- The forty digits of an address, marked by the digest of the unmarked ones. -/
def digits (address : Address) : List Char :=
  let lower := address.bytes.toHex
  List.zipWith mark lower (Hash.Keccak.hash (Text.Utf8.encode lower)).nibbles

def text (address : Address) : String :=
  String.ofList ('0' :: 'x' :: address.digits)

end Address

end ContractPipeline
