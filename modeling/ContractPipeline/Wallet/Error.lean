import ContractPipeline.Text.Quoted

/-! What can be wrong with a seed phrase, and with the derivation of a key from it. -/
namespace ContractPipeline

inductive PhraseFault
  | unknownWord (word : String)
  | entropyLength (bytes : Nat)
  | checksum (phrase : String)
  | reported (text : String)
  deriving DecidableEq, Repr

def PhraseFault.message : PhraseFault → String
  | .unknownWord word => "the word `" ++ word ++ "` is invalid"
  | .entropyLength bytes => "the mnemonic's entropy length `" ++ toString bytes ++ "` is invalid"
  | .checksum phrase => "the phrase `" ++ phrase ++ "` is invalid"
  | .reported text => text

inductive KeyError
  | invalidPrivateKey
  | emptyPhrase
  | invalidPhrase (fault : PhraseFault)
  | derivationFailed (index : UInt32) (reason : String)
  deriving DecidableEq, Repr

namespace KeyError

def message : KeyError → String
  | .invalidPrivateKey => "Invalid private key"
  | .emptyPhrase => "Empty seed phrase"
  | .invalidPhrase fault => "Invalid seed phrase: " ++ fault.message
  | .derivationFailed index reason =>
    "Could not derive a key at index " ++ toString index.toNat ++ ": " ++ reason

def detail : KeyError → String
  | .invalidPrivateKey => "InvalidPrivateKey"
  | .emptyPhrase => "EmptyMnemonic"
  | .invalidPhrase fault => "InvalidMnemonic(" ++ Text.quote fault.message ++ ")"
  | .derivationFailed index reason =>
    "DerivationFailed \x7b index: " ++ toString index.toNat ++ ", reason: " ++ Text.quote reason ++
      " \x7d"

end KeyError

end ContractPipeline
