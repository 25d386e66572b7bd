import ContractPipeline.Compiler.BuildJson
import ContractPipeline.Json.Scanner

/-! Reading builds from JSON texts. A build is an object with its four parts under their keys, among
any other members, or a list of the four parts in their order. The first problem in reading order
decides what is wrong. -/
namespace ContractPipeline.Compiler

open Json (Token Ending Scanner)

/-- What is wrong with a text: it ends too early, it is no JSON, or it is JSON of another shape. -/
inductive ReadFault
  | cutShort
  | malformed
  | mismatched
  deriving DecidableEq, Repr

/-- The parts of a build that were read so far. -/
structure Draft where
  compilerPath : Option String
  isJavaScript : Option Bool
  version : Option String
  longVersion : Option String
  deriving DecidableEq, Repr

namespace Draft

def empty : Draft :=
  ⟨none, none, none, none⟩

def has (draft : Draft) : Field → Bool
  | .compilerPath => draft.compilerPath.isSome
  | .isJavaScript => draft.isJavaScript.isSome
  | .version => draft.version.isSome
  | .longVersion => draft.longVersion.isSome

/-- The build of a draft in which no part is missing. -/
def build? (draft : Draft) : Option Build := do
  let path ← draft.compilerPath
  let isJavaScript ← draft.isJavaScript
  let version ← draft.version
  let longVersion ← draft.longVersion
  return ⟨.ofString path, isJavaScript, version, longVersion⟩

/-- What is wrong with a token where a part of another kind is due. -/
def faultOf : Token → ReadFault
  | .text (some _) | .number true | .null | .bool _ | .openList | .openRecord => .mismatched
  | .text none | .number false | .colon | .comma | .closeList | .closeRecord => .malformed

def give (draft : Draft) : Field → Token → Except ReadFault Draft
  | .compilerPath, .text (some s) => .ok { draft with compilerPath := some s }
  | .isJavaScript, .bool b => .ok { draft with isJavaScript := some b }
  | .version, .text (some s) => .ok { draft with version := some s }
  | .longVersion, .text (some s) => .ok { draft with longVersion := some s }
  | _, token => .error (faultOf token)

end Draft

/-- What encloses a value that is skipped. -/
inductive Frame
  | list
  | record
  deriving DecidableEq, Repr

/-- What is due in a value that is skipped: a value, the first item or member of a frame or its
end, a comma or the end of a frame, a key, or a colon. -/
inductive Due
  | value
  | first
  | separator
  | key
  | colon
  deriving DecidableEq, Repr

inductive Skip
  | inside (frames : List Frame) (due : Due)
  | over
  deriving DecidableEq, Repr

namespace Skip

/-- After a value that these frames enclose. -/
def afterValue : List Frame → Skip
  | [] => .over
  | frames => .inside frames .separator

def takeValue (frames : List Frame) : Token → Option Skip
  | .null | .bool _ | .number _ | .text _ => some (afterValue frames)
  | .openList => some (.inside (.list :: frames) .first)
  | .openRecord => some (.inside (.record :: frames) .first)
  | .colon | .comma | .closeList | .closeRecord => none

def take (frames : List Frame) (due : Due) (token : Token) : Option Skip :=
  match due, frames, token with
  | .value, _, _ => takeValue frames token
  | .first, .list :: outer, .closeList => some (afterValue outer)
  | .first, .list :: _, _ => takeValue frames token
  | .first, .record :: outer, .closeRecord => some (afterValue outer)
  | .first, .record :: _, .text _ => some (.inside frames .colon)
  | .separator, .list :: outer, .closeList => some (afterValue outer)
  | .separator, .list :: _, .comma => some (.inside frames .value)
  | .separator, .record :: outer, .closeRecord => some (afterValue outer)
  | .separator, .record :: _, .comma => some (.inside frames .key)
  | .key, _, .text _ => some (.inside frames .colon)
  | .colon, _, .colon => some (.inside frames .value)
  | _, _, _ => none

/-- What is wrong with a text that ends in a value that is skipped. Part of a number is no number,
but other parts may be completed, where their beginning is right. -/
def faultAtEnd (frames : List Frame) (due : Due) (ending : Ending) : ReadFault :=
  match ending, due, frames with
  | .clean, _, _ => .cutShort
  | .partWord, .value, _ | .partWord, .first, .list :: _ => .cutShort
  | .partText _, .value, _ | .partText _, .first, _ | .partText _, .key, _ => .cutShort
  | .number _, .value, _ | .number _, .first, .list :: _ => .cutShort
  | _, _, _ => .malformed

end Skip

/-- Where reading stands. In an object: before the first key, before a further key, between a key
and its value, before the value of a part, in a value that is skipped, or after a value. In a list:
before the first item, before a further one, or after one, with the parts that are due. -/
inductive Stage
  | start
  | firstKey (draft : Draft)
  | key (draft : Draft)
  | colon (draft : Draft) (field? : Option Field)
  | value (draft : Draft) (field : Field)
  | skip (draft : Draft) (frames : List Frame) (due : Due)
  | afterValue (draft : Draft)
  | firstItem
  | item (draft : Draft) (field : Field) (later : List Field)
  | afterItem (draft : Draft) (due : List Field)
  | finished (build : Build)
  deriving DecidableEq, Repr

namespace Stage

/-- The parts in the order of the list form. -/
def fields : List Field :=
  [.compilerPath, .isJavaScript, .version, .longVersion]

def field? (name : String) : Option Field :=
  fields.find? (·.key == name)

/-- A key. A part may have a value only once. -/
def takeKey (draft : Draft) : Token → Except ReadFault Stage
  | .text (some name) =>
    match field? name with
    | some field => if draft.has field then .error .mismatched else .ok (.colon draft (some field))
    | none => .ok (.colon draft none)
  | _ => .error .malformed

def close (draft : Draft) : Except ReadFault Stage :=
  match draft.build? with
  | some build => .ok (.finished build)
  | none => .error .mismatched

def ofSkip (draft : Draft) : Option Skip → Except ReadFault Stage
  | some (.inside frames due) => .ok (.skip draft frames due)
  | some .over => .ok (.afterValue draft)
  | none => .error .malformed

def takeItem (draft : Draft) (field : Field) (later : List Field) (token : Token) :
    Except ReadFault Stage :=
  (draft.give field token).map (.afterItem · later)

def take : Stage → Token → Except ReadFault Stage
  | .start, .openRecord => .ok (.firstKey .empty)
  | .start, .openList => .ok .firstItem
  | .start, token => .error (Draft.faultOf token)
  | .firstKey draft, .closeRecord => close draft
  | .firstKey draft, token | .key draft, token => takeKey draft token
  | .colon draft (some field), .colon => .ok (.value draft field)
  | .colon draft none, .colon => .ok (.skip draft [] .value)
  | .colon _ _, _ => .error .malformed
  | .value draft field, token => (draft.give field token).map .afterValue
  | .skip draft frames due, token => ofSkip draft (Skip.take frames due token)
  | .afterValue draft, .comma => .ok (.key draft)
  | .afterValue draft, .closeRecord => close draft
  | .afterValue _, _ => .error .malformed
  | .firstItem, .closeList => .error .mismatched
  | .firstItem, token => takeItem .empty .compilerPath [.isJavaScript, .version, .longVersion] token
  | .item draft field later, token => takeItem draft field later token
  | .afterItem draft (field :: later), .comma => .ok (.item draft field later)
  | .afterItem draft _, .closeList => close draft
  | .afterItem _ _, _ => .error .malformed
  | .finished _, _ => .error .malformed

def faultBeforeValue : Ending → ReadFault
  | .number false | .partText true => .malformed
  | .number true => .mismatched
  | .clean | .partWord | .partNumber | .partText false => .cutShort

def faultBeforeKey : Ending → ReadFault
  | .clean | .partText false => .cutShort
  | .number _ | .partWord | .partNumber | .partText true => .malformed

def faultBeforeSign : Ending → ReadFault
  | .clean => .cutShort
  | .number _ | .partWord | .partNumber | .partText _ => .malformed

def finish (stage : Stage) (ending : Ending) : Except ReadFault Build :=
  match stage with
  | .start | .value _ _ | .firstItem | .item _ _ _ => .error (faultBeforeValue ending)
  | .firstKey _ | .key _ => .error (faultBeforeKey ending)
  | .colon _ _ | .afterValue _ | .afterItem _ _ => .error (faultBeforeSign ending)
  | .skip _ frames due => .error (Skip.faultAtEnd frames due ending)
  | .finished build => if ending = .clean then .ok build else .error .malformed

end Stage

/-- A scanner, and what its tokens have led to. -/
structure BuildReader where
  scanner : Scanner
  stage : Stage
  deriving DecidableEq, Repr

namespace BuildReader

def initial : BuildReader :=
  ⟨.between, .start⟩

/-- Takes one character: first the tokens that it completes, then the character itself. -/
def feed (reader : BuildReader) (c : Char) : Except ReadFault BuildReader := do
  let scanned := reader.scanner.feed c
  let stage ← scanned.tokens.foldlM Stage.take reader.stage
  match scanned.scanner? with
  | some scanner => return ⟨scanner, stage⟩
  | none => throw .malformed

def finish (reader : BuildReader) : Except ReadFault Build :=
  reader.stage.finish reader.scanner.ending

end BuildReader

def Build.read (text : String) : Except ReadFault Build := do
  let reader ← text.toList.foldlM BuildReader.feed .initial
  reader.finish

end ContractPipeline.Compiler
