import ContractPipeline.Compiler.BuildJson
import ContractPipeline.Configuration.Json
import ContractPipeline.Journal
import ContractPipeline.Server.Request

/-! The local server, which shows the configuration. Its answers may be read from any origin, and
those that it routes itself tell how long a connection is kept. -/
namespace ContractPipeline.Server

open Json (Value)

structure Response where
  status : Nat
  headers : List (String × String)
  body : String
  deriving DecidableEq, Repr

namespace Response

def empty (status : Nat) : Response :=
  ⟨status, [], ""⟩

def withHeaders (response : Response) (headers : List (String × String)) : Response :=
  { response with headers := response.headers ++ headers }

def lengthOf (body : String) : String × String :=
  ("content-length", toString (Bytes.ofString body).length)

/-- An answer with a JSON body, or with what is said of a path that is no text. -/
def json : Option Value → Response
  | some value =>
    let body := value.toCompact
    ⟨200, [("content-type", "application/json"), lengthOf body], body⟩
  | none =>
    ⟨500, [("content-type", "text/plain; charset=utf-8"), lengthOf Compiler.pathFault],
      Compiler.pathFault⟩

def sortedHeaders (response : Response) : List (String × String) :=
  response.headers.mergeSort fun a b => a.1 ≤ b.1

end Response

/-- A server. The keep-alive timeout is in milliseconds. -/
structure DevServer where
  port : Nat
  keepAlive : Nat
  config : Configuration

namespace DevServer

def defaultKeepAlive : Nat := 5000

def create (port : Nat) (config : Configuration) : DevServer :=
  ⟨port, defaultKeepAlive, config⟩

/-- The keep-alive timeout in whole seconds. -/
def keepAliveSeconds (server : DevServer) : Nat :=
  server.keepAlive / 1000

def health (server : DevServer) : Value :=
  .record [("status", .text "ok"), ("keep_alive_secs", .number server.keepAliveSeconds)]

/-- What is served at a path, as far as it can be written. -/
def document? (server : DevServer) (path : Bytes) : Option (Option Value) :=
  if path = .ofString "/health" then some (some server.health)
  else if path = .ofString "/api/config" then some server.config.written?
  else if path = .ofString "/api/networks" then some (some server.config.networks.toJsonList)
  else none

def allowed : String × String := ("allow", "GET,HEAD")

def answerDocument (document : Option Value) (method : String) : Response :=
  if method = "GET" then .json document
  else if method = "HEAD" then { Response.json document with body := "" }
  else (Response.empty 405).withHeaders [allowed, Response.lengthOf ""]

/-- Headers of the answer where there is no document. A path that starts with no slash lies outside
of all routes, and its answer tells that it has no body. -/
def missingHeaders (path : Bytes) : List (String × String) :=
  if path.head? = some 0x2F then [] else [Response.lengthOf ""]

def answer (server : DevServer) (request : Request) : Response :=
  match server.document? request.path with
  | some document => answerDocument document request.method
  | none => (Response.empty 404).withHeaders (missingHeaders request.path)

def keepAliveHeader (server : DevServer) : String × String :=
  ("keep-alive", "timeout=" ++ toString server.keepAliveSeconds)

/-- Headers of every answer: all origins may read it. -/
def crossOrigin : List (String × String) := [
  ("access-control-allow-origin", "*"),
  ("vary", "origin, access-control-request-method, access-control-request-headers")]

/-- The answer to a question for what is allowed: all methods and headers. The routes are not asked,
but they add what they know of the path. -/
def permissions (server : DevServer) (path : Bytes) : Response :=
  (Response.empty 200).withHeaders <|
    [("access-control-allow-headers", "*"), ("access-control-allow-methods", "*")] ++
      if (server.document? path).isSome then [allowed, Response.lengthOf ""]
      else missingHeaders path

def respond (server : DevServer) (request : Request) : Response :=
  let response :=
    if request.method = "OPTIONS" then server.permissions request.path
    else (server.answer request).withHeaders [server.keepAliveHeader]
  response.withHeaders crossOrigin

end DevServer

end ContractPipeline.Server
