import ContractPipeline.Bytes

/-! Keccak-256: the sponge over 25 lanes of 64 bits that absorbs blocks of 136 bytes. -/
namespace ContractPipeline.Hash.Keccak

/-- Lane `(x, y)` is at `x + 5 y`. -/
abbrev State := Vector UInt64 25

/-- The lane at two coordinates, which are taken modulo five. -/
def lane (s : State) (x y : Nat) : UInt64 :=
  s[x % 5 + 5 * (y % 5)]

def ofLanes (f : Nat → Nat → UInt64) : State :=
  Vector.ofFn fun i => f (i.val % 5) (i.val / 5)

def rotateLeft (word amount : UInt64) : UInt64 :=
  (word <<< amount) ||| (word >>> (64 - amount))

/-- How far each lane is turned. -/
def offsets : State := #v[
  0, 1, 62, 28, 27,
  36, 44, 6, 55, 20,
  3, 10, 43, 25, 39,
  41, 45, 15, 21, 8,
  18, 2, 61, 56, 14]

def roundConstants : List UInt64 := [
  0x0000000000000001, 0x0000000000008082, 0x800000000000808a, 0x8000000080008000,
  0x000000000000808b, 0x0000000080000001, 0x8000000080008081, 0x8000000000008009,
  0x000000000000008a, 0x0000000000000088, 0x0000000080008009, 0x000000008000000a,
  0x000000008000808b, 0x800000000000008b, 0x8000000000008089, 0x8000000000008003,
  0x8000000000008002, 0x8000000000000080, 0x000000000000800a, 0x800000008000000a,
  0x8000000080008081, 0x8000000000008080, 0x0000000080000001, 0x8000000080008008]

/-- Adds to each lane the parities of two columns beside it. -/
def theta (s : State) : State :=
  let parities : Vector UInt64 5 := Vector.ofFn fun x =>
    lane s x.val 0 ^^^ lane s x.val 1 ^^^ lane s x.val 2 ^^^ lane s x.val 3 ^^^ lane s x.val 4
  let parity (x : Nat) : UInt64 := parities[x % 5]
  ofLanes fun x y => lane s x y ^^^ parity (x + 4) ^^^ rotateLeft (parity (x + 1)) 1

/-- Turns each lane by its offset and moves it to its new place. -/
def rhoPi (s : State) : State :=
  ofLanes fun x y => rotateLeft (lane s (x + 3 * y) x) (lane offsets (x + 3 * y) x)

/-- Mixes each lane with the two that follow it in its row. -/
def chi (s : State) : State :=
  ofLanes fun x y => lane s x y ^^^ (~~~lane s (x + 1) y &&& lane s (x + 2) y)

def round (s : State) (constant : UInt64) : State :=
  let mixed := chi (rhoPi (theta s))
  mixed.set 0 (mixed[0] ^^^ constant)

def permute (s : State) : State :=
  roundConstants.foldl round s

/-- The words of a block, the least significant byte of each first. -/
def blockWords (block : Bytes) : List UInt64 :=
  (block.blocks 8 17).map fun bytes => UInt64.ofNat (Bytes.toNat bytes.reverse)

/-- Adds a block to the front lanes and permutes. -/
def absorb (s : State) (block : Bytes) : State :=
  let words := blockWords block
  permute (Vector.ofFn fun i => s[i] ^^^ words.getD i.val 0)

/-- What follows a message of this length: a one bit, zeros, and a last one bit. -/
def padding (length : Nat) : Bytes :=
  let free := 136 - length % 136
  if free = 1 then [0x81] else 0x01 :: List.replicate (free - 2) 0 ++ [0x80]

def squeeze (s : State) : Bytes :=
  [s[0], s[1], s[2], s[3]].flatMap fun word => (Bytes.ofNat 8 word.toNat).reverse

def hash (message : Bytes) : Bytes :=
  let padded := message ++ padding message.length
  squeeze ((padded.blocks 136 (padded.length / 136)).foldl absorb (Vector.replicate 25 0))

theorem length_hash (message : Bytes) : (hash message).length = 32 := by
  simp [hash, squeeze, Bytes.length_ofNat]

end ContractPipeline.Hash.Keccak
