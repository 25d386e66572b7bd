import ContractPipeline.Compiler.Build
import ContractPipeline.Compiler.Error
import ContractPipeline.Compiler.Version
import ContractPipeline.Journal
import ContractPipeline.Storage.FileTree
import ContractPipeline.Text.Blank

/-! The compiler cache: a folder with a folder for each version, which holds a native program or
a program in JavaScript. -/
namespace ContractPipeline.Compiler

open Storage (FileTree IoError Path)

abbrev Outcome := Except CompilerError Build

structure Cache where
  directory : Path
  deriving DecidableEq, Repr

namespace Cache

def nativeName : String := "solc"

def scriptName : String := "soljson.js"

def longVersionName : String := "long_version"

def allowed (c : Char) : Bool :=
  c.isAlphanum || c == '.' || c == '-' || c == '+'

def accepts (version : String) : Bool :=
  version ≠ "" && version.toList.all allowed

def path (cache : Cache) (version name : String) : Path :=
  (cache.directory.join version).join name

def holds (cache : Cache) (tree : FileTree) (version name : String) : Bool :=
  tree.isFile (cache.path version name)

/-- The program that serves a version, and whether it is in JavaScript. A native one is
preferred. -/
def program? (cache : Cache) (tree : FileTree) (version : String) : Option (Path × Bool) :=
  if cache.holds tree version nativeName then some (cache.path version nativeName, false)
  else if cache.holds tree version scriptName then some (cache.path version scriptName, true)
  else none

/-- The long version of a cached build: the text of its file without the white space around it,
or the version itself where there is no such file. -/
def longVersion (cache : Cache) (tree : FileTree) (version : String) :
    Except CompilerError String :=
  match tree.file? (cache.path version longVersionName) with
  | none => .ok version
  | some contents =>
    match Text.Utf8.decode? contents with
    | none => .error (.io .invalidText)
    | some text => .ok (String.ofList (Text.trim text))

def find (cache : Cache) (tree : FileTree) (version : String) : Outcome :=
  if accepts version then
    match cache.program? tree version with
    | none => .error (.notCached version cache.directory)
    | some (path, isJavaScript) =>
      (cache.longVersion tree version).map fun longVersion =>
        ⟨path, isJavaScript, version, longVersion⟩
  else .error (.invalidVersion version)

def usingCached (build : Build) : LogRecord :=
  ⟨.info, "Using cached solc " ++ build.version ++ " from " ++ build.compilerPath.quote⟩

def lookup (cache : Cache) (tree : FileTree) (version : String) : Recorded Outcome :=
  match cache.find tree version with
  | .error error => pure (.error error)
  | .ok build => do
    Recorded.emit (.log (usingCached build))
    return .ok build

/-- The name of an entry that is a folder itself. -/
def folderName? : Bytes × Storage.Node → Option String
  | (name, .folder _) => some name.toStringLossy
  | (_, .file _) | (_, .link _) => none

/-- The names of the folders in the cache. A cache that does not exist has none. -/
def versions (cache : Cache) (tree : FileTree) : Except CompilerError (List String) :=
  match tree.find? cache.directory with
  | some (.folder entries) => .ok (Version.sortNames (entries.filterMap folderName?))
  | some (.file _) => .error (.io .notAFolder)
  | some (.link _) | none => .ok []

end Cache

end ContractPipeline.Compiler
