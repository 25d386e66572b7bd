import ContractPipeline.Text.Integer
import ContractPipeline.Text.Split

/-! The paths of keys as text: the letter `m` for the root, and behind each slash the index of a
child. A mark behind the index stands for the hardened child. -/
namespace ContractPipeline.Wallet

def hardenedStart : Nat := 2147483648

namespace KeyPath

def mark : Char := '\x27'

/-- The number in a step, which has at most 32 binary digits. -/
def readNumber? (text : List Char) : Option Nat :=
  (Text.readInteger? .u32 text).map Int.toNat

/-- The index of the child that a step leads to. Without a mark it is the number as it stands. -/
def readStep? (step : List Char) : Option UInt32 :=
  if step.getLast? = some mark then
    ((readNumber? step.dropLast).filter (· < hardenedStart)).map fun n => .ofNat (hardenedStart + n)
  else (readNumber? step).map .ofNat

def read? (path : String) : Option (List UInt32) :=
  match Text.split '/' path.toList with
  | ['m'] :: steps => steps.mapM readStep?
  | _ => none

/-- The path of the key whose children are the accounts. -/
def accounts : String := "m/44'/60'/0'/0"

def account (index : UInt32) : String :=
  accounts ++ "/" ++ toString index.toNat

end KeyPath

end ContractPipeline.Wallet
