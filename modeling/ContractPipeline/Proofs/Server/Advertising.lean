import ContractPipeline.Extension.Registry
import ContractPipeline.Server.DevServer

/-! Which answers advertise the keep-alive timeout. The routes lie in a layer that adds the header,
and that one in a layer that shares answers with other origins. The outer layer answers the method
`OPTIONS` by itself, so that those answers miss the header. -/
namespace ContractPipeline.Server

open Extension (Registry)

abbrev Service := Request → Response

def valuesOf (name : String) (headers : List (String × String)) : List String :=
  headers.filterMap fun (key, value) => if key = name then some value else none

namespace Response

def keepAlive (response : Response) : List String :=
  valuesOf "keep-alive" response.headers

theorem keepAlive_withHeaders (response : Response) (headers : List (String × String)) :
    (response.withHeaders headers).keepAlive =
      response.keepAlive ++ valuesOf "keep-alive" headers :=
  List.filterMap_append

theorem keepAlive_json (document : Option Json.Value) : (json document).keepAlive = [] := by
  cases document <;> rfl

end Response

namespace DevServer

variable (server : DevServer)

section Layers

variable (inner : Service) (request : Request)

/-- The layer that adds the timeout to each answer. -/
def advertising : Service := fun request =>
  (inner request).withHeaders [server.keepAliveHeader]

/-- The layer that shares answers, and answers questions for what is allowed. -/
def sharing : Service := fun request =>
  (if request.method = "OPTIONS" then server.permissions request.path
    else inner request).withHeaders crossOrigin

theorem respond_eq_layers : server.respond = server.sharing (server.advertising server.answer) := rfl

theorem keepAlive_advertising :
    (server.advertising inner request).keepAlive =
      (inner request).keepAlive ++ ["timeout=" ++ toString server.keepAliveSeconds] :=
  Response.keepAlive_withHeaders _ _

theorem valuesOf_missingHeaders (path : Bytes) : valuesOf "keep-alive" (missingHeaders path) = [] := by
  unfold missingHeaders
  split <;> rfl

theorem keepAlive_permissions (path : Bytes) : (server.permissions path).keepAlive = [] := by
  rw [permissions, Response.keepAlive_withHeaders]
  split
  · rfl
  · exact valuesOf_missingHeaders path

/-- Questions for what is allowed do not come through to the inner layer. -/
theorem keepAlive_sharing :
    (server.sharing inner request).keepAlive =
      if request.method = "OPTIONS" then [] else (inner request).keepAlive := by
  rw [sharing, Response.keepAlive_withHeaders]
  split
  · rw [keepAlive_permissions]
    rfl
  · exact List.append_nil _

/-- No route says by itself how long a connection is kept. -/
theorem keepAlive_answer : (server.answer request).keepAlive = [] := by
  unfold answer
  split
  · unfold answerDocument
    split
    · exact Response.keepAlive_json _
    · split
      · exact Response.keepAlive_json _
      · rfl
  · exact valuesOf_missingHeaders request.path

theorem keepAlive_respond :
    (server.respond request).keepAlive =
      if request.method = "OPTIONS" then []
      else ["timeout=" ++ toString server.keepAliveSeconds] := by
  rw [respond_eq_layers, keepAlive_sharing, keepAlive_advertising, keepAlive_answer]
  rfl

/-- With the layers in the other order, each answer would have the header. -/
theorem keepAlive_advertising_sharing :
    (server.advertising (server.sharing server.answer) request).keepAlive =
      ["timeout=" ++ toString server.keepAliveSeconds] := by
  rw [keepAlive_advertising, keepAlive_sharing, keepAlive_answer, ite_self, List.nil_append]

end Layers

theorem toCompact_health :
    server.health.toCompact =
      "\x7b\"status\":\"ok\",\"keep_alive_secs\":" ++ toString server.keepAliveSeconds ++ "\x7d" := by
  apply String.toList_inj.mp
  rw [Json.Value.toCompact, String.toList_ofList, String.toList_append, String.toList_append]
  simp [health, Json.compact, Json.compactMembers, Json.writeText, Json.escapeChar]

theorem body_health :
    (server.respond ⟨"GET", .ofString "/health"⟩).body = server.health.toCompact := rfl

end DevServer

/-- What changes the timeout of a server between its creation and its use. -/
inductive TimeoutChange
  | assign (timeout : Nat)
  | created (registry : Registry)

def TimeoutChange.apply (timeout : Nat) : TimeoutChange → Nat
  | .assign assigned => assigned
  | .created registry => (registry.serverCreated timeout).value

namespace DevServer

def change (server : DevServer) (change : TimeoutChange) : DevServer :=
  { server with keepAlive := change.apply server.keepAlive }

theorem foldl_change (server : DevServer) (changes : List TimeoutChange) :
    changes.foldl change server =
      { server with keepAlive := changes.foldl TimeoutChange.apply server.keepAlive } := by
  induction changes generalizing server with
  | nil => rfl
  | cons first changes ih => exact ih (server.change first)

/-- After any changes, all answers except those to the method `OPTIONS` have the header exactly once,
with the timeout that the changes lead to in whole seconds, which is the one that is told on request. -/
theorem respond_foldl_change (server : DevServer) (changes : List TimeoutChange)
    (request : Request) :
    let served := changes.foldl change server
    let seconds := toString (changes.foldl TimeoutChange.apply server.keepAlive / 1000)
    (served.respond request).keepAlive =
      (if request.method = "OPTIONS" then [] else ["timeout=" ++ seconds]) ∧
    (served.respond ⟨"GET", .ofString "/health"⟩).body =
      "\x7b\"status\":\"ok\",\"keep_alive_secs\":" ++ seconds ++ "\x7d" := by
  rw [foldl_change]
  exact ⟨keepAlive_respond _ request, (body_health _).trans (toCompact_health _)⟩

theorem respond_options :
    let server := DevServer.create 0 (.assemble ⟨[]⟩ 200 (.standard ⟨[]⟩ 8545) 8545)
    (server.respond ⟨"GET", .ofString "/health"⟩).keepAlive = ["timeout=5"] ∧
    (server.respond ⟨"OPTIONS", .ofString "/health"⟩).keepAlive = [] ∧
    ¬∀ (server : DevServer) (request : Request),
      (server.respond request).keepAlive = ["timeout=" ++ toString (server.keepAlive / 1000)] := by
  intro server
  refine ⟨by rw [keepAlive_respond]; decide, rfl, fun h => ?_⟩
  exact List.cons_ne_nil _ _ (h server ⟨"OPTIONS", .ofString "/health"⟩).symm

end DevServer

end ContractPipeline.Server
