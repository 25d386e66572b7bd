import ContractPipeline.Storage.Path

/-! Compiler builds: which program compiles for a version. -/
namespace ContractPipeline.Compiler

/-- A compiler that serves a version. The long version is only recorded beside results. -/
structure Build where
  compilerPath : Storage.Path
  isJavaScript : Bool
  version : String
  longVersion : String
  deriving DecidableEq, Repr

def nativeLongVersion (version : String) : String :=
  version ++ "-dummy-long-version"

def Build.native (path : Storage.Path) (version : String) : Build where
  compilerPath := path
  isJavaScript := false
  version := version
  longVersion := nativeLongVersion version

end ContractPipeline.Compiler
