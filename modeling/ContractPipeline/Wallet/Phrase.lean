import ContractPipeline.Hash.Hmac
import ContractPipeline.Hash.Sha256
import ContractPipeline.Text.Split
import ContractPipeline.Text.Utf8
import ContractPipeline.Wallet.Error
import ContractPipeline.Wallet.WordList

/-! Seed phrases. The words of a phrase are the digits of a number in base 2048, which is made of
the entropy and of a checksum that is computed from it. -/
namespace ContractPipeline.Wallet

/-- The number whose digits in base 2048 these are. -/
def packDigits (digits : List Nat) : Nat :=
  digits.foldl (fun value digit => 2048 * value + digit) 0

/-- The last `count` digits of a number in base 2048. -/
def unpackDigits : (count value : Nat) → List Nat
  | 0, _ => []
  | count + 1, value => value / Nat.pow 2048 count % 2048 :: unpackDigits count value

/-- The number of whole bytes that hold the digits of this many words. -/
def packedLength (words : Nat) : Nat :=
  (11 * words + 7) / 8

/-- The bytes of entropy in a packed phrase: a multiple of four from 16 to 32, beside which the
checksum takes up to eight bits. -/
def entropyLength? (packed : Nat) : Option Nat :=
  if 16 ≤ packed ∧ packed ≤ 33 ∧ packed % 4 ≤ 1 then some (packed - packed % 4) else none

/-- The first `size` bytes of a number of `bits` binary digits; missing digits are zero. -/
def leadingBytes (size bits value : Nat) : Bytes :=
  Bytes.ofNat size (value * Nat.pow 2 (8 * size - bits) / Nat.pow 2 (bits - 8 * size))

/-- The words that encode an entropy: one checksum bit stands behind each four bytes. -/
def encodeEntropy (entropy : Bytes) : List String :=
  let checkBits := entropy.length / 4
  let check := (Hash.Sha256.hash entropy).headD 0
  let value := entropy.toNat * Nat.pow 2 checkBits + check.toNat / Nat.pow 2 (8 - checkBits)
  (unpackDigits ((8 * entropy.length + checkBits) / 11) value).map wordAt

/-- The positions of the words, or the first word that has none. -/
def wordIndices : List String → Except PhraseFault (List Nat)
  | [] => .ok []
  | word :: words =>
    match wordIndex? word with
    | none => .error (.unknownWord word)
    | some index => (wordIndices words).map (index :: ·)

def checkWords (words : List String) : Except PhraseFault Unit := do
  let digits ← wordIndices words
  let packed := packedLength words.length
  match entropyLength? packed with
  | none => .error (.entropyLength packed)
  | some size =>
    let entropy := leadingBytes size (11 * words.length) (packDigits digits)
    if encodeEntropy entropy = words then .ok ()
    else .error (.checksum (" ".intercalate words))

def normalize (phrase : String) : List Char :=
  Text.unwords (Text.words phrase.toList)

/-- The 64 bytes that a normalized phrase is stretched to. -/
def seed (phrase : List Char) : Bytes :=
  Hash.pbkdf2 (Text.Utf8.encode phrase) (Bytes.ofString "mnemonic") 2048

/-- The seed of a phrase, whatever white space stands between its words. -/
def seedOfPhrase (phrase : String) : Except KeyError Bytes :=
  let phrase := normalize phrase
  if phrase.isEmpty then .error .emptyPhrase
  else
    match checkWords ((Text.split ' ' phrase).map String.ofList) with
    | .error fault => .error (.invalidPhrase fault)
    | .ok () => .ok (seed phrase)

end ContractPipeline.Wallet
