import ContractPipeline.CommandLine.Run

/-! The program: it looks at the variables and at the compiler cache, runs one command, and prints
what it reports. -/
namespace ContractPipeline

def variableNames : List String :=
  [CommandLine.noColorKey, CommandLine.forceColorKey] ++ Variable.all.map Variable.key

/-- The variables that the program looks at, as far as they are set. -/
def readEnvironment : IO Environment := do
  let pairs ← variableNames.filterMapM fun key => do
    return (← IO.getEnv key).map fun value => (key, value)
  return ⟨pairs⟩

/-- The tree with what lies at an entry of the disk, down to a depth. Links are followed. -/
def loadEntry : (depth : Nat) → Storage.FileTree → IO.FS.DirEntry → IO Storage.FileTree
  | 0, tree, _ => return tree
  | depth + 1, tree, entry => do
    let path := Storage.Path.ofString entry.path.toString
    match (← entry.path.symlinkMetadata).type with
    | .dir =>
      let tree := (tree.makeFolder? path).getD tree
      (← entry.path.readDir).foldlM (loadEntry depth) tree
    | .file =>
      let contents ← IO.FS.readBinFile entry.path
      return (tree.write? path contents.toList).getD tree
    | .symlink =>
      let target ← IO.FS.realPath entry.path
      let tree := (tree.link? path (.ofString target.toString)).getD tree
      loadEntry depth tree ⟨target.parent.getD "/", target.fileName.getD ""⟩
    | .other => return tree

def emptyTree : IO Storage.FileTree := do
  let here := Storage.Path.ofString (← IO.currentDir).toString
  let tree : Storage.FileTree := ⟨.folder [], []⟩
  return { (tree.makeFolder? here).getD tree with
    working := here.components.filter fun name => !name.isEmpty }

/-- The compiler cache of an environment, and nothing else. -/
def readFiles (env : Environment) : IO Storage.FileTree := do
  let tree ← emptyTree
  let directory := (env.get? Variable.cacheDirectory.key).getD Configuration.defaultCacheDirectory
  try loadEntry 4 tree ⟨".", directory⟩
  catch _ => return tree

def isShown (record : LogRecord) : Bool :=
  match record.level with
  | .info | .warn | .error => true
  | .trace | .debug => false

/-- Prints a report; the result is the exit code. -/
def printReport (report : CommandLine.Report) : IO UInt32 := do
  let out ← IO.getStdout
  out.write ⟨report.output.toArray⟩
  match report.finish with
  | .done | .serving _ => return 0
  | .failed failure =>
    IO.eprintln ("Error: " ++ failure.detail)
    return 1

/-- Runs the program with the words after its name; the result is the exit code. -/
def runProgram (args : List String) : IO UInt32 := do
  let env ← readEnvironment
  let files ← readFiles env
  let result := CommandLine.run ⟨env, files, fun _ => true⟩ args
  for record in result.records do
    if isShown record then
      IO.eprintln record.line
  match result.value with
  | .report report => printReport report
  | .misuse =>
    IO.eprintln (CommandLine.usage [CommandLine.programName] CommandLine.program).text
    return 2

end ContractPipeline

def main (args : List String) : IO UInt32 :=
  ContractPipeline.runProgram args
