import ContractPipeline.Key
import ContractPipeline.Wallet.KeyPath
import ContractPipeline.Wallet.Phrase

/-! Hierarchical derivation: each key has children with indices below `2 ^ 32`, and the accounts
of a seed phrase are the children of one key. -/
namespace ContractPipeline.Wallet

def derivationFault : String := "signature error"

/-- A secret with the code that its children are derived with. -/
structure ExtendedKey where
  secret : SecretKey
  chainCode : Bytes
  deriving DecidableEq

namespace ExtendedKey

def master? (seed : Bytes) : Option ExtendedKey := do
  let digest := Hash.hmacSha512 (Bytes.ofString "Bitcoin seed") seed
  let secret ← SecretKey.ofNat? (Bytes.toNat (digest.take 32))
  return ⟨secret, digest.drop 32⟩

/-- The message that a plain child is derived from; the public key of its parent is enough. -/
def plainMessage (parent : ExtendedKey) (index : UInt32) : Bytes :=
  (PublicKey.ofSecret parent.secret).toBytes ++ Bytes.ofNat 4 index.toNat

/-- The message that a hardened child is derived from; the secret of its parent is needed. -/
def hardenedMessage (parent : ExtendedKey) (index : UInt32) : Bytes :=
  0 :: parent.secret.toBytes ++ Bytes.ofNat 4 index.toNat

def childMessage (parent : ExtendedKey) (index : UInt32) : Bytes :=
  if hardenedStart ≤ index.toNat then parent.hardenedMessage index else parent.plainMessage index

/-- The key derived from a message: its secret is that of the parent plus the first half of a
digest. -/
def derived? (parent : ExtendedKey) (message : Bytes) : Option ExtendedKey := do
  let digest := Hash.hmacSha512 parent.chainCode message
  let tweak ← SecretKey.ofNat? (Bytes.toNat (digest.take 32))
  let secret ← SecretKey.ofNat? ((tweak.value + parent.secret.value) % Curve.Point.groupOrder)
  return ⟨secret, digest.drop 32⟩

def child? (parent : ExtendedKey) (index : UInt32) : Option ExtendedKey :=
  parent.derived? (parent.childMessage index)

def ofPath? (seed : Bytes) (path : String) : Option ExtendedKey := do
  let indices ← KeyPath.read? path
  let master ← master? seed
  indices.foldlM child? master

/-- The key pair of a key, whose bytes are read as those of any secret are. -/
def keyPair (key : ExtendedKey) : Except KeyError KeyPair :=
  match SecretKey.ofBytes? key.secret.toBytes with
  | some secret => .ok (.ofSecret secret)
  | none => .error .invalidPrivateKey

end ExtendedKey

def accountPair (index : UInt32) : Option ExtendedKey → Except KeyError KeyPair
  | some key => key.keyPair
  | none => .error (.derivationFailed index derivationFault)

def derive (phrase : String) (index : UInt32) : Except KeyError KeyPair := do
  let seed ← seedOfPhrase phrase
  accountPair index (ExtendedKey.ofPath? seed (KeyPath.account index))

/-- The accounts of a seed phrase: the key that they are children of. -/
structure Accounts where
  parent? : Option ExtendedKey

namespace Accounts

def ofPhrase (phrase : String) : Except KeyError Accounts :=
  (seedOfPhrase phrase).map fun seed => ⟨ExtendedKey.ofPath? seed KeyPath.accounts⟩

def keyPair (accounts : Accounts) (index : UInt32) : Except KeyError KeyPair :=
  accountPair index (accounts.parent?.bind (·.child? index))

end Accounts

end ContractPipeline.Wallet
