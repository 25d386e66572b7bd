import ContractPipeline.Job
import ContractPipeline.Network
import ContractPipeline.Wallet.Derivation

/-! Signing accounts: where they come from, and the list of their addresses. -/
namespace ContractPipeline

/-- Why there are no signers, or why they could not be listed. -/
inductive SignerError
  | key (error : KeyError)
  | io (error : Storage.IoError)
  | unavailable (reason : String)
  deriving DecidableEq, Repr

namespace SignerError

def message : SignerError → String
  | .key error => "Key error: " ++ error.message
  | .io error => "IO error: " ++ error.message
  | .unavailable reason => "Signer provider unavailable: " ++ reason

def detail : SignerError → String
  | .key error => "KeyError(" ++ error.detail ++ ")"
  | .io error => "IoError(" ++ error.detail ++ ")"
  | .unavailable reason => "Unavailable(" ++ Text.quote reason ++ ")"

end SignerError

/-- An account that can sign. -/
structure Signer where
  index : UInt32
  pair : KeyPair
  deriving DecidableEq

namespace Signer

def address (signer : Signer) : String :=
  signer.pair.address.text

/-- A signer for diagnosis, without its secret. -/
def detail (signer : Signer) : String :=
  "Signer \x7b index: " ++ toString signer.index.toNat ++ ", address: " ++
    Text.quote signer.address ++ " \x7d"

end Signer

/-- A source of signers, which yields them in an order of its own. -/
abbrev Provider := Recorded (Except SignerError (List Signer))

namespace Provider

/-- The number of accounts that a seed phrase is used for. -/
def defaultCount : Nat := 20

def signer (accounts : Except KeyError Wallet.Accounts) (index : UInt32) :
    Except SignerError Signer :=
  match accounts.bind (·.keyPair index) with
  | .ok pair => .ok ⟨index, pair⟩
  | .error error => .error (.key error)

/-- The signers at so many indices from a first one on. The first that cannot be derived ends it. -/
def signers (accounts : Except KeyError Wallet.Accounts) :
    (count first : Nat) → Except SignerError (List Signer)
  | 0, _ => .ok []
  | count + 1, first => do
    let signer ← signer accounts (.ofNat first)
    return signer :: (← signers accounts count (first + 1))

def ofPhrase (phrase : String) (count : Nat) : Provider :=
  pure (signers (Wallet.Accounts.ofPhrase phrase) count 0)

/-- The accounts of a remote node, of which nothing is known here. -/
def remote : Provider := do
  Recorded.log .info "Accounts are managed by the remote node; no local signers"
  return .ok []

def ofSource : AccountSource → Provider
  | .phrase words => ofPhrase words defaultCount
  | .remote => remote

def writeAddresses : List Signer → Job Storage.IoError Unit
  | [] => pure ()
  | signer :: signers => do
    Job.offerText signer.address
    Job.offerText "\n"
    writeAddresses signers

/-- Lists the signers of a provider; the result is how many there are. -/
def list (provider : Provider) : Job SignerError Nat := do
  let signers ← Job.ofRecorded provider
  (writeAddresses signers).failingAs .io
  return signers.length

end Provider

end ContractPipeline
