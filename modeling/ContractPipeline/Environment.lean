import ContractPipeline.Text.Blank
import ContractPipeline.Text.Integer
import ContractPipeline.Text.Quoted

/-! Snapshots of environment variables, and the variables that the configuration is read from. -/
namespace ContractPipeline

/-- What is wrong with a configuration, or with a request that names a part of it. -/
inductive ConfigError
  | invalidNumber (key value : String)
  | unknownNetwork (name : String)
  deriving DecidableEq, Repr

namespace ConfigError

def message : ConfigError → String
  | .invalidNumber key value => "Invalid number in " ++ key ++ ": " ++ value
  | .unknownNetwork name => "Unknown network: " ++ name

def detail : ConfigError → String
  | .invalidNumber key value =>
    "InvalidNumber \x7b key: " ++ Text.quote key ++ ", value: " ++ Text.quote value ++ " \x7d"
  | .unknownNetwork name => "UnknownNetwork(" ++ Text.quote name ++ ")"

end ConfigError

inductive Variable
  | solcVersion
  | solcPath
  | optimizerRuns
  | cacheDirectory
  | reportGas
  | rpcPort
  | testPhrase
  | rinkebyUrl
  | rinkebyPhrase
  | goerliUrl
  | goerliPhrase
  deriving DecidableEq, Repr

namespace Variable

def key : Variable → String
  | .solcVersion => "SOLC_VERSION"
  | .solcPath => "SOLC_PATH"
  | .optimizerRuns => "SOLC_OPTIMIZER_RUNS"
  | .cacheDirectory => "SOLC_CACHE_DIR"
  | .reportGas => "REPORT_GAS"
  | .rpcPort => "RPC_PORT"
  | .testPhrase => "TEST_MNEMONIC"
  | .rinkebyUrl => "RINKEBY_URL"
  | .rinkebyPhrase => "RINKEBY_MNEMONIC"
  | .goerliUrl => "GOERLI_URL"
  | .goerliPhrase => "GOERLI_MNEMONIC"

def all : List Variable :=
  [.solcVersion, .solcPath, .optimizerRuns, .cacheDirectory, .reportGas, .rpcPort, .testPhrase,
    .rinkebyUrl, .rinkebyPhrase, .goerliUrl, .goerliPhrase]

end Variable

/-- Names with their values. In a snapshot, of two pairs with one name the later counts. -/
structure Environment where
  pairs : List (String × String)

namespace Environment

/-- The name and the value in an assignment. A name has a first character whatever it is, so that
they are parted at the first equals sign after that one. -/
def assignment? (text : String) : Option (String × String) :=
  match text.toList with
  | [] => none
  | first :: rest =>
    match rest.span (· ≠ '=') with
    | (_, []) => none
    | (others, _ :: value) => some (String.ofList (first :: others), String.ofList value)

/-- The environment of a list of assignments. A text that assigns nothing is left out. -/
def ofAssignments (texts : List String) : Environment :=
  ⟨texts.filterMap assignment?⟩

/-- The value of a variable. An empty value counts as unset. -/
def get? (env : Environment) (key : String) : Option String :=
  (env.pairs.reverse.lookup key).filter (· ≠ "")

/-- Whether a variable of a running program is switched on. Of two pairs with one name the earlier
counts here, since a search for a single variable ends at the first; an empty value switches
nothing on. -/
def isSwitchedOn (env : Environment) (key : String) : Bool :=
  (env.pairs.lookup key).any (· ≠ "")

def isSet (env : Environment) (key : String) : Bool :=
  (env.get? key).isSome

/-- The integer that a variable holds between white space, or a default where it is unset. -/
def integer (env : Environment) (kind : Text.IntegerKind) (key : String) (default : Int) :
    Except ConfigError Int :=
  match env.get? key with
  | none => .ok default
  | some value =>
    match Text.readInteger? kind (Text.trim value.toList) with
    | some n => .ok n
    | none => .error (.invalidNumber key value)

def number (env : Environment) (kind : Text.IntegerKind) (key : String) (default : Nat) :
    Except ConfigError Nat :=
  (env.integer kind key default).map Int.toNat

end Environment

end ContractPipeline
