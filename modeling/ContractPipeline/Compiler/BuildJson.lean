import ContractPipeline.Compiler.Build
import ContractPipeline.Json.Value

/-! Builds as JSON. -/
namespace ContractPipeline.Compiler

/-- The parts of a build that its JSON form holds. -/
inductive Field
  | compilerPath
  | isJavaScript
  | version
  | longVersion
  deriving DecidableEq, Repr

def Field.key : Field → String
  | .compilerPath => "compilerPath"
  | .isJavaScript => "isSolcJs"
  | .version => "version"
  | .longVersion => "longVersion"

def pathFault : String := "path contains invalid UTF-8 characters"

/-- The JSON form of a build, if its path is a text. -/
def Build.toJson? (build : Build) : Option Json.Value :=
  build.compilerPath.toString?.map fun path =>
    .record [
      (Field.compilerPath.key, .text path),
      (Field.isJavaScript.key, .bool build.isJavaScript),
      (Field.version.key, .text build.version),
      (Field.longVersion.key, .text build.longVersion)]

end ContractPipeline.Compiler
