import ContractPipeline.Text.Integer
import ContractPipeline.Text.Split

/-! Semantic versions, and the order of version names. -/
namespace ContractPipeline.Compiler

/-- A part between dots after the three numbers. Of digits only, it is a number, with a count of
the zeros in front. -/
inductive Identifier
  | numeric (value zeros : Nat)
  | word (text : String)
  deriving DecidableEq, Repr

namespace Identifier

def allowed (c : Char) : Bool :=
  c.isAlphanum || c == '-'

def read? (text : List Char) : Option Identifier :=
  if text.isEmpty || !text.all allowed then none
  else if text.all Char.isDigit then
    some (.numeric (Text.digitsValue text) (text.takeWhile (· == '0')).length)
  else some (.word (String.ofList text))

/-- Numbers come before words and are ordered by value, then by the zeros in front. -/
def order : Identifier → Identifier → Ordering
  | .numeric value zeros, .numeric value' zeros' =>
    (compare value value').then (compare zeros zeros')
  | .numeric .., .word _ => .lt
  | .word _, .numeric .. => .gt
  | .word text, .word text' => compare text text'

/-- Whether a number is written with a zero that it does not need. -/
def isPadded : Identifier → Bool
  | .numeric value zeros => 1 < zeros || (zeros == 1 && value != 0)
  | .word _ => false

end Identifier

/-- Identifiers from left to right; of two lists of which one begins the other, the shorter comes
first. -/
def orderIdentifiers : List Identifier → List Identifier → Ordering
  | [], [] => .eq
  | [], _ :: _ => .lt
  | _ :: _, [] => .gt
  | a :: as, b :: bs => (a.order b).then (orderIdentifiers as bs)

structure Version where
  major : Nat
  minor : Nat
  patch : Nat
  preRelease : List Identifier
  build : List Identifier
  deriving DecidableEq, Repr

namespace Version

/-- One of the three numbers: below `2 ^ 64`, and without zeros in front. -/
def readNumber? (text : List Char) : Option Nat :=
  match text with
  | '0' :: _ :: _ => none
  | _ => (Text.readDigits? text).filter (· < 18446744073709551616)

def readCore? (text : List Char) : Option (Nat × Nat × Nat) :=
  match Text.split '.' text with
  | [major, minor, patch] => do
    return (← readNumber? major, ← readNumber? minor, ← readNumber? patch)
  | _ => none

def readIdentifiers? (text : List Char) : Option (List Identifier) :=
  (Text.split '.' text).mapM Identifier.read?

/-- What follows the first occurrence of a character, if there is one, and what precedes it. -/
def cut (separator : Char) (text : List Char) : List Char × Option (List Char) :=
  (text.takeWhile (· != separator), (text.dropWhile (· != separator)).tail?)

/-- The identifiers that follow a sign, none without the sign. -/
def readOptional? : Option (List Char) → Option (List Identifier)
  | none => some []
  | some text => readIdentifiers? text

/-- Reads a version: three numbers, then after a hyphen the identifiers of a pre-release, none of
them padded with zeros, and after a plus sign those of a build. -/
def read? (text : List Char) : Option Version := do
  let (release, build?) := cut '+' text
  let (core, preRelease?) := cut '-' release
  let (major, minor, patch) ← readCore? core
  let preRelease ← (readOptional? preRelease?).filter fun ids => !ids.any Identifier.isPadded
  let build ← readOptional? build?
  return ⟨major, minor, patch, preRelease, build⟩

/-- A pre-release comes before its release. -/
def orderPreRelease : List Identifier → List Identifier → Ordering
  | [], [] => .eq
  | [], _ :: _ => .gt
  | _ :: _, [] => .lt
  | ids, ids' => orderIdentifiers ids ids'

/-- The numbers decide first, then the pre-release, then the build. -/
def order (v w : Version) : Ordering :=
  (compare v.major w.major).then <|
  (compare v.minor w.minor).then <|
  (compare v.patch w.patch).then <|
  (orderPreRelease v.preRelease w.preRelease).then <|
  orderIdentifiers v.build w.build

/-- Names that are versions come first in their order, then all others as texts. -/
def orderNames (a b : String) : Ordering :=
  match read? a.toList, read? b.toList with
  | some v, some w => v.order w
  | some _, none => .lt
  | none, some _ => .gt
  | none, none => compare a b

def sortNames (names : List String) : List String :=
  names.mergeSort fun a b => (orderNames a b).isLE

end Version

end ContractPipeline.Compiler
