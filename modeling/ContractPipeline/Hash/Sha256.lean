import ContractPipeline.Hash.Sha512

/-! SHA-256. Its constants are the upper halves of those of SHA-512; blocks have 64 bytes. -/
namespace ContractPipeline.Hash.Sha256

def upper (word : UInt64) : UInt32 :=
  (word >>> 32).toUInt32

/-- The first 32 bits of the fractional parts of the cube roots of the first 64 primes. -/
def roundConstants : List UInt32 :=
  (Sha512.roundConstants.take 64).map upper

structure State where
  a : UInt32
  b : UInt32
  c : UInt32
  d : UInt32
  e : UInt32
  f : UInt32
  g : UInt32
  h : UInt32
  deriving DecidableEq, Repr

/-- The first 32 bits of the fractional parts of the square roots of the first eight primes. -/
def initial : State :=
  let s := Sha512.initial
  ⟨upper s.a, upper s.b, upper s.c, upper s.d, upper s.e, upper s.f, upper s.g, upper s.h⟩

def rotateRight (word : UInt32) (amount : UInt32) : UInt32 :=
  (word >>> amount) ||| (word <<< (32 - amount))

def round (s : State) (input : UInt32 × UInt32) : State :=
  let sum1 := rotateRight s.e 6 ^^^ rotateRight s.e 11 ^^^ rotateRight s.e 25
  let choice := (s.e &&& s.f) ^^^ (~~~s.e &&& s.g)
  let mixed := s.h + sum1 + choice + input.2 + input.1
  let sum0 := rotateRight s.a 2 ^^^ rotateRight s.a 13 ^^^ rotateRight s.a 22
  let majority := (s.a &&& s.b) ^^^ (s.a &&& s.c) ^^^ (s.b &&& s.c)
  ⟨mixed + (sum0 + majority), s.a, s.b, s.c, s.d + mixed, s.e, s.f, s.g⟩

/-- The next word of the schedule, from the words before it with the latest in front. -/
def nextWord (latest : List UInt32) : UInt32 :=
  let near := latest.getD 1 0
  let far := latest.getD 14 0
  let sigma1 := rotateRight near 17 ^^^ rotateRight near 19 ^^^ (near >>> 10)
  let sigma0 := rotateRight far 7 ^^^ rotateRight far 18 ^^^ (far >>> 3)
  sigma1 + latest.getD 6 0 + sigma0 + latest.getD 15 0

/-- Adds a number of words to a schedule whose latest word is in front. -/
def extend : Nat → List UInt32 → List UInt32
  | 0, latest => latest
  | count + 1, latest => extend count (nextWord latest :: latest)

def compress (s : State) (block : Bytes) : State :=
  let words := (block.blocks 4 16).map fun bytes => UInt32.ofNat bytes.toNat
  let schedule := (extend 48 words.reverse).reverse
  let t := (schedule.zip roundConstants).foldl round s
  ⟨s.a + t.a, s.b + t.b, s.c + t.c, s.d + t.d, s.e + t.e, s.f + t.f, s.g + t.g, s.h + t.h⟩

/-- What follows the last bytes of a message of this length: a one bit, zeros, and the length in
bits. -/
def padding (length : Nat) : Bytes :=
  0x80 :: List.replicate ((119 - length % 64) % 64) 0 ++ Bytes.ofNat 8 (8 * length)

def State.toBytes (s : State) : Bytes :=
  [s.a, s.b, s.c, s.d, s.e, s.f, s.g, s.h].flatMap fun word => Bytes.ofNat 4 word.toNat

def hash (message : Bytes) : Bytes :=
  let padded := message ++ padding message.length
  ((padded.blocks 64 (padded.length / 64)).foldl compress initial).toBytes

end ContractPipeline.Hash.Sha256
