import ContractPipeline.Environment
import ContractPipeline.Table

/-! Network profiles: where contracts are deployed to, and whose accounts sign. -/
namespace ContractPipeline

/-- Where the signing accounts of a network come from. -/
inductive AccountSource
  | phrase (words : String)
  | remote
  deriving DecidableEq, Repr

namespace AccountSource

/-- The accounts of a seed phrase if there is one, else those of the remote node. -/
def ofPhrase? : Option String → AccountSource
  | some words => .phrase words
  | none => .remote

/-- The kind of a source, which is all that is shown of it. -/
def kind : AccountSource → String
  | .phrase _ => "mnemonic"
  | .remote => "remote"

end AccountSource

/-- A deployment target. The gas price is in wei and the timeout in milliseconds. -/
structure NetworkProfile where
  url : Option String
  gasPrice : Option Nat
  accounts : AccountSource
  timeout : Option Nat
  gas : Option Nat
  allowUnlimitedContractSize : Bool
  deriving DecidableEq, Repr

namespace NetworkProfile

/-- A profile that names an endpoint and nothing else. -/
def endpoint (url : Option String) : NetworkProfile where
  url := url
  gasPrice := none
  accounts := .remote
  timeout := none
  gas := none
  allowUnlimitedContractSize := false

/-- The seed phrase of the in-process network where none is configured. -/
def testPhrase : String :=
  "test test test test test test test test test test test junk"

/-- The in-process network. Its gas cap lies below the limit of its blocks. -/
def inProcess (env : Environment) : NetworkProfile :=
  { endpoint none with
    accounts := .phrase ((env.get? Variable.testPhrase.key).getD testPhrase)
    gas := some 25000000
    allowUnlimitedContractSize := true }

/-- A public test network, at a gas price of two gwei. -/
def publicTest (env : Environment) (url phrase : Variable) : NetworkProfile :=
  { endpoint (env.get? url.key) with
    gasPrice := some 2000000000
    accounts := .ofPhrase? (env.get? phrase.key) }

/-- The local node, which may take two minutes to answer. -/
def localNode (port : Nat) : NetworkProfile :=
  { endpoint (some ("http://localhost:" ++ toString port)) with timeout := some 120000 }

end NetworkProfile

/-- Profiles by name, in the order of the names, and the one that is used by default. -/
structure Networks where
  defaultName : String
  profiles : List (String × NetworkProfile)
  deriving DecidableEq, Repr

namespace Networks

def defaultPort : Nat := 8545

def port (env : Environment) : Except ConfigError Nat :=
  env.number .u16 Variable.rpcPort.key defaultPort

/-- The public test networks, each with the variables that hold its endpoint and its phrase. -/
def publicTests : List (String × Variable × Variable) :=
  [("rinkeby", .rinkebyUrl, .rinkebyPhrase), ("goerli", .goerliUrl, .goerliPhrase)]

/-- The profiles in the order in which they are put into the table. -/
def definitions (env : Environment) (port : Nat) : List (String × NetworkProfile) :=
  ("hardhat", .inProcess env) ::
    publicTests.map (fun (name, url, phrase) => (name, .publicTest env url phrase)) ++
      [("localhost", .localNode port)]

def standard (env : Environment) (port : Nat) : Networks where
  defaultName := "localhost"
  profiles := Table.insertAll (definitions env port) []

def load (env : Environment) : Except ConfigError Networks :=
  (port env).map (standard env)

def get? (networks : Networks) (name : String) : Option NetworkProfile :=
  networks.profiles.lookup name

/-- The profile of a name, or that of the default network, with its name. -/
def resolve (networks : Networks) (name? : Option String) :
    Except ConfigError (String × NetworkProfile) :=
  let name := name?.getD networks.defaultName
  match networks.get? name with
  | some profile => .ok (name, profile)
  | none => .error (.unknownNetwork name)

end Networks

end ContractPipeline
