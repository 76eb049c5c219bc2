import MemoHints.Json.Basic

/-!
# Remote procedure calls in JSON

Requests have an id and are answered under it; notifications have none and are not answered. Errors
have a number of the protocol besides their text.
-/

namespace MemoHints.Rpc

open Json

/-- A request, or a notification when it has no id. -/
structure Request where
  id : Option Json := none
  method : String
  params : Option Json := none

/-- Integers of 64 bits, texts and null are ids. -/
def isId : Json → Bool
  | .int n => -(2 ^ 63) ≤ n && n < 2 ^ 63
  | .str _ | .null => true
  | _ => false

/-- The request that a message is, if it is one. -/
def Request.ofJson? (message : Json) : Option Request :=
  match message.get? "jsonrpc", (message.get? "method").getD (.str "") with
  | some (.str "2.0"), .str method =>
    match message.get? "id" with
    | none => some { method, params := message.get? "params" }
    | some id =>
      if isId id then some { id := some id, method, params := message.get? "params" } else none
  | _, _ => none

/-- Why a request is refused. -/
inductive RpcError where
  | notReady
  | invalidRequest
  /-- There is no such method; its name is added when nothing at all is known of it. -/
  | methodNotFound (name : Option String)
  | invalidParams (message : String)
deriving DecidableEq

namespace RpcError

def code : RpcError → Int
  | .notReady => -32002
  | .invalidRequest => -32600
  | .methodNotFound _ => -32601
  | .invalidParams _ => -32602

def message : RpcError → String
  | .notReady => "Server not initialized"
  | .invalidRequest => "Invalid request"
  | .methodNotFound _ => "Method not found"
  | .invalidParams message => message

/-- What is added to the text. -/
def data : RpcError → Option Json
  | .methodNotFound name => name.map .str
  | _ => none

def toJson (e : RpcError) : Json :=
  .obj ([("code", .int e.code), ("message", .str e.message)] ++ member? "data" (fun v => v) e.data)

end RpcError

/-- The version that each message names. -/
def version : String × Json := ("jsonrpc", .str "2.0")

/-- The answer under an id. -/
def response (id : Json) : Except RpcError Json → Json
  | .ok result => .obj [version, ("result", result), ("id", id)]
  | .error e => .obj [version, ("error", e.toJson), ("id", id)]

/-- A message that is not answered. -/
def notification (method : String) (params : Json) : Json :=
  .obj [version, ("method", .str method), ("params", params)]

/-- A message that is answered under a number. -/
def call (id : Nat) (method : String) (params : Json) : Json :=
  .obj [version, ("id", .nat id), ("method", .str method), ("params", params)]

end MemoHints.Rpc
