import ContractPipeline.Account
import ContractPipeline.Compiler.Error
import ContractPipeline.Configuration

/-! Named tasks. -/
namespace ContractPipeline.Extension

inductive TaskError
  | unknownTask (name : String)
  | config (error : ConfigError)
  | signer (error : SignerError)
  | compiler (error : Compiler.CompilerError)
  | io (error : Storage.IoError)
  deriving DecidableEq, Repr

namespace TaskError

def message : TaskError → String
  | .unknownTask name => "Unknown task: " ++ name
  | .config error => "Config error: " ++ error.message
  | .signer error => "Signer error: " ++ error.message
  | .compiler error => "Compiler error: " ++ error.message
  | .io error => "IO error: " ++ error.message

def detail : TaskError → String
  | .unknownTask name => "UnknownTask(" ++ Text.quote name ++ ")"
  | .config error => "ConfigError(" ++ error.detail ++ ")"
  | .signer error => "SignerError(" ++ error.detail ++ ")"
  | .compiler error => "CompilerError(" ++ error.detail ++ ")"
  | .io error => "IoError(" ++ error.detail ++ ")"

end TaskError

/-- What a task sees: the configuration, and the network that was asked for. -/
structure TaskContext where
  config : Configuration
  network? : Option String

abbrev TaskHandler := TaskContext → Job TaskError Unit

structure Task where
  description : String
  handler : TaskHandler

namespace TaskHandler

/-- Prints the addresses of the signers of the network. -/
def accounts : TaskHandler := fun context => do
  let (name, profile) ← Job.ofExcept
    ((context.config.networks.resolve context.network?).mapError .config)
  Job.emit (.log ⟨.debug, "Listing accounts of network " ++ name⟩)
  let _ ← (Provider.ofSource profile.accounts).list.failingAs .signer
  return ()

/-- Prints a text and the network that was asked for. -/
def print (text : String) : TaskHandler := fun context =>
  (Job.offerText (text ++ " " ++ context.network?.getD "default" ++ "\n")).failingAs .io

/-- Prints the name and the endpoint of the network. -/
def url : TaskHandler := fun context => do
  let (name, profile) ← Job.ofExcept
    ((context.config.networks.resolve context.network?).mapError .config)
  (Job.offerText (name ++ " " ++ profile.url.getD "-" ++ "\n")).failingAs .io

def fail (error : TaskError) : TaskHandler := fun _ =>
  throw error

end TaskHandler

end ContractPipeline.Extension
