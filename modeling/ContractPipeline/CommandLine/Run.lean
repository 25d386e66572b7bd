import ContractPipeline.Application
import ContractPipeline.CommandLine.Command
import ContractPipeline.Compiler.BuildJson
import ContractPipeline.Server.DevServer

/-! What each command prints, and how it ends. -/
namespace ContractPipeline.CommandLine

open Extension (TaskContext TaskError)

inductive Failure
  | config (error : ConfigError)
  | task (error : TaskError)
  | compiler (error : Compiler.CompilerError)
  | pathText
  | server (error : Storage.IoError)
  deriving DecidableEq, Repr

def Failure.detail : Failure → String
  | .config error => error.detail
  | .task error => error.detail
  | .compiler error => error.detail
  | .pathText => "Error(" ++ Text.quote Compiler.pathFault ++ ", line: 0, column: 0)"
  | .server error => "IoError(" ++ error.detail ++ ")"

/-- What the program finds around it: variables, files, and whether a port can be listened on. -/
structure Host where
  environment : Environment
  files : Storage.FileTree
  isPortFree : Nat → Bool

/-- How a command ends: it has printed a text and is done, has failed, or goes on serving. -/
inductive Finish
  | done
  | failed (failure : Failure)
  | serving (server : Server.DevServer)

/-- What a command has printed, and how it ends. -/
structure Report where
  output : Bytes
  finish : Finish

namespace Report

def print (text : String) : Report :=
  ⟨.ofString text, .done⟩

/-- A failure before anything is printed. -/
def fail (failure : Failure) : Report :=
  ⟨[], .failed failure⟩

/-- A value as JSON, unless a path in it is no text. -/
def json : Option Json.Value → Report
  | some value => .print (value.toPretty ++ "\n")
  | none => .fail .pathText

end Report

def runAccounts (app : Application) (network? : Option String) : Recorded Report := do
  let (result, sink) ← (app.registry.run Extension.Registry.accountsName
    ⟨app.config, network?⟩).on .unlimited
  match result with
  | .ok () => return ⟨sink.offers, .done⟩
  | .error error => return ⟨sink.offers, .failed (.task error)⟩

def runResolve (app : Application) (files : Storage.FileTree) (version : String) :
    Recorded Report := do
  match ← app.registry.getBuild files version with
  | .error error => return .fail (.compiler error)
  | .ok build => return .json build.toJson?

def runCached (app : Application) (files : Storage.FileTree) : Report :=
  let cache : Compiler.Cache := ⟨app.config.cacheDirectory⟩
  match cache.versions files with
  | .error error => .fail (.compiler error)
  | .ok [] => .print ("No compilers cached in " ++ cache.directory.quote ++ "\n")
  | .ok versions =>
    .print (unlines (("Cached compilers in " ++ cache.directory.quote ++ ":") ::
      versions.map ("   " ++ ·)))

def networkLines (defaultName name : String) (profile : NetworkProfile) : List String :=
  let marker := if name = defaultName then "*" else " "
  (marker ++ " " ++ pad 10 name ++ " " ++ profile.url.getD "(in-process)") ::
    ((profile.gasPrice.map fun price => "     gas price: " ++ toString price ++ " wei").toList ++
      (profile.gas.map fun gas => "     gas cap: " ++ toString gas).toList ++
      (profile.timeout.map fun timeout => "     timeout: " ++ toString timeout ++ "ms").toList)

def runNetworks (networks : Networks) : Report :=
  .print (unlines (networks.profiles.flatMap fun (name, profile) =>
    networkLines networks.defaultName name profile))

def runTasks (registry : Extension.Registry) : Report :=
  .print (unlines (registry.descriptions.map fun (name, description) =>
    "   " ++ pad 12 name ++ " " ++ description))

def startLine (server : Server.DevServer) : String :=
  "Starting dev server on http://localhost:" ++ toString server.port ++ " (keep-alive " ++
    toString server.keepAliveSeconds ++ "s)\n"

def runNode (app : Application) (isPortFree : Nat → Bool) (port? : Option Nat) :
    Recorded Report := do
  let server := Server.DevServer.create (port?.getD app.config.port) app.config
  let keepAlive ← app.registry.serverCreated server.keepAlive
  let server := { server with keepAlive := keepAlive }
  let finish := if isPortFree server.port then .serving server
    else .failed (.server .addressInUse)
  return ⟨.ofString (startLine server), finish⟩

def Command.run (host : Host) (app : Application) : Command → Recorded Report
  | .accounts network? => runAccounts app network?
  | .resolve version => runResolve app host.files version
  | .cached => return runCached app host.files
  | .config => return .json app.config.written?
  | .networks => return runNetworks app.config.networks
  | .tasks => return runTasks app.registry
  | .node port? => runNode app host.isPortFree port?

def start (host : Host) (command : Command) : Recorded Report := do
  match ← Application.start host.environment with
  | .error error => return .fail (.config error)
  | .ok app => command.run host app

/-- What a call of the program ends in: a report, or a command line that it does not understand. -/
inductive Result
  | report (report : Report)
  | misuse

/-- Runs the program with the words after its name. -/
def run (host : Host) (args : List String) : Recorded Result := do
  match parse [programName] program args with
  | .misuse => return .misuse
  | .version text => return .report (.print (programName ++ " " ++ text ++ "\n"))
  | .help path spec => return .report (.print (printed host.environment (helpText path spec)))
  | .aboutHelp path => return .report (.print (printed host.environment (aboutHelpText path)))
  | .command command =>
    let report ← start host command
    return .report report

end ContractPipeline.CommandLine
