import ContractPipeline.Hash.Sha512

/-! Message authentication with SHA-512, and the stretching of a passphrase that is built on
it. -/
namespace ContractPipeline.Hash

/-- A key of HMAC-SHA-512: the states after the block of the inner and of the outer hash that
depends on the key alone. -/
structure HmacKey where
  inner : Sha512.State
  outer : Sha512.State

namespace HmacKey

/-- The block of a key: the key itself, or its digest if it is longer than a block, with zeros
after it. -/
def block (key : Bytes) : Bytes :=
  let short := if 128 < key.length then Sha512.hash key else key
  short ++ List.replicate (128 - short.length) 0

def ofBytes (key : Bytes) : HmacKey where
  inner := Sha512.compress Sha512.initial ((block key).map (· ^^^ 0x36))
  outer := Sha512.compress Sha512.initial ((block key).map (· ^^^ 0x5c))

def authenticate (key : HmacKey) (message : Bytes) : Bytes :=
  Sha512.finish key.outer 128 (Sha512.finish key.inner 128 message)

end HmacKey

def hmacSha512 (key message : Bytes) : Bytes :=
  (HmacKey.ofBytes key).authenticate message

/-- Authenticates a text again and again, and adds each result to a sum without carries. -/
def stretch (key : HmacKey) : Nat → Bytes → Bytes → Bytes
  | 0, _, sum => sum
  | rounds + 1, last, sum =>
    let next := key.authenticate last
    stretch key rounds next (List.zipWith (· ^^^ ·) sum next)

/-- The first block of PBKDF2 with HMAC-SHA-512. -/
def pbkdf2 (password salt : Bytes) (rounds : Nat) : Bytes :=
  let key := HmacKey.ofBytes password
  let first := key.authenticate (salt ++ Bytes.ofNat 4 1)
  stretch key (rounds - 1) first first

end ContractPipeline.Hash
