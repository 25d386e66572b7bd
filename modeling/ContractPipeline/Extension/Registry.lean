import ContractPipeline.Extension.Override
import ContractPipeline.Extension.ServerHook
import ContractPipeline.Extension.Task
import ContractPipeline.Table

/-! The registry of all extensions, and the built-in ones. -/
namespace ContractPipeline.Extension

open Compiler (Cache Outcome)

inductive Point
  | getBuild
  | serverCreated
  | task (name : String)
  deriving DecidableEq, Repr

def Point.name : Point → String
  | .getBuild => "compile:solidity:get-solc-build"
  | .serverCreated => "node:server-created"
  | .task name => name

/-- Overrides and hooks in the order of their registration, and tasks in the order of their
names. -/
structure Registry where
  cache : Cache
  overrides : List Override
  serverHooks : List ServerHook
  tasks : List (String × Task)

namespace Registry

def empty (cache : Cache) : Registry :=
  ⟨cache, [], [], []⟩

/-- Adds an override above all earlier ones. -/
def override (registry : Registry) (handler : Override) : Registry :=
  { registry with overrides := registry.overrides ++ [handler] }

/-- Adds a hook that runs after all earlier ones. -/
def onServerCreated (registry : Registry) (hook : ServerHook) : Registry :=
  { registry with serverHooks := registry.serverHooks ++ [hook] }

def task? (registry : Registry) (name : String) : Option Task :=
  registry.tasks.lookup name

/-- Defines a task, or replaces the one of its name. -/
def define (registry : Registry) (name : String) (task : Task) : Recorded Registry := do
  if (registry.task? name).isSome then
    Recorded.log .debug ("Replacing task " ++ name)
  return { registry with tasks := Table.insert name task registry.tasks }

def handlerCount (registry : Registry) : Point → Nat
  | .getBuild => registry.overrides.length
  | .serverCreated => registry.serverHooks.length
  | .task name => if (registry.task? name).isSome then 1 else 0

/-- The build of a version: the latest override is asked first, and the cache last. -/
def getBuild (registry : Registry) (files : Storage.FileTree) (version : String) :
    Recorded Outcome := do
  Recorded.log .debug ("Running " ++ Point.getBuild.name ++ " for solc " ++ version)
  runBelow registry.overrides (registry.cache.lookup files version) version
    registry.overrides.length (Nat.le_refl _)

def serverCreated (registry : Registry) (timeout : Nat) : Recorded Nat := do
  Recorded.log .debug ("Running " ++ Point.serverCreated.name ++ " (" ++
    toString registry.serverHooks.length ++ " handlers)")
  ServerHook.runAll registry.serverHooks timeout

def run (registry : Registry) (name : String) (context : TaskContext) : Job TaskError Unit :=
  match registry.task? name with
  | some task => task.handler context
  | none => throw (.unknownTask name)

def descriptions (registry : Registry) : List (String × String) :=
  registry.tasks.map fun (name, task) => (name, task.description)

def accountsName : String := "accounts"

def accountsTask : Task where
  description := "Prints the list of accounts"
  handler := .accounts

/-- Adds the built-in extensions: the task that lists accounts, the raised keep-alive timeout, and
the native compiler. -/
def install (registry : Registry) (config : Configuration) : Recorded Registry := do
  let registry ← registry.define accountsName accountsTask
  return (registry.onServerCreated .raise).override (.native config.nativeCompiler)

end Registry

end ContractPipeline.Extension
