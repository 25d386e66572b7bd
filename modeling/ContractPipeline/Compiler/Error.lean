import ContractPipeline.Storage.Error
import ContractPipeline.Storage.Path

/-! Why there is no compiler build. -/
namespace ContractPipeline.Compiler

inductive CompilerError
  | notCached (version : String) (directory : Storage.Path)
  | invalidVersion (version : String)
  | io (error : Storage.IoError)
  deriving DecidableEq, Repr

namespace CompilerError

def message : CompilerError → String
  | .notCached version directory =>
    "solc " ++ version ++ " is not cached in " ++ directory.quote
  | .invalidVersion version => "Invalid compiler version: " ++ Text.quote version
  | .io error => "IO error: " ++ error.message

def detail : CompilerError → String
  | .notCached version directory =>
    "NotCached \x7b version: " ++ Text.quote version ++ ", dir: " ++ directory.quote ++ " \x7d"
  | .invalidVersion version => "InvalidVersion(" ++ Text.quote version ++ ")"
  | .io error => "IoError(" ++ error.detail ++ ")"

end CompilerError

end ContractPipeline.Compiler
