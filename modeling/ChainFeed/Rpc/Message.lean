import ChainFeed.Json.Record
import ChainFeed.Text.Numeral

/-!
# Requests and responses

The JSON-RPC 2.0 messages that are exchanged with a node. A response is told apart by its id, never
by its place in a batch.
-/

namespace ChainFeed.Rpc

inductive Id where
  | number (n : UInt64)
  | text (s : String)
  | null
  deriving DecidableEq, Repr

namespace Id

/-- The numeric view of an id; some nodes echo numbers as text. -/
def number? : Id → Option UInt64
  | .number n => some n
  | .text s => Text.decimalWord? s
  | .null => none

def render : Id → String
  | .number n => toString n
  | .text s => s
  | .null => "null"

def toJson : Id → Json
  | .number n => .word n
  | .text s => .str s
  | .null => .null

def ofJson? : Json → Option Id
  | .str s => some (.text s)
  | .null => some .null
  | j => j.word?.map .number

end Id

def version : String := "2.0"

structure Request where
  jsonrpc : String := version
  method : String
  params : Json
  id : Id

namespace Request

def positional (id : UInt64) (method : String) (params : List Json) : Request :=
  { method, params := .arr params, id := .number id }

def named (id : UInt64) (method : String) (params : Json) : Request :=
  { method, params, id := .number id }

def toJson (r : Request) : Json :=
  .obj [("jsonrpc", .str r.jsonrpc), ("method", .str r.method), ("params", r.params),
    ("id", r.id.toJson)]

def ofJson? (j : Json) : Option Request := do
  let r ← j.record? ["jsonrpc", "method", "params", "id"]
  return {
    jsonrpc := ← r.required "jsonrpc" Json.text?
    method := ← r.required "method" Json.text?
    params := ← r.required "params" Json.canonical?
    id := ← r.required "id" Id.ofJson? }

end Request

structure NodeError where
  code : Int64
  message : String
  data : Option Json := none
  name : Option String := none
  cause : Option Json := none

namespace NodeError

def causeName? (e : NodeError) : Option String :=
  e.cause.bind fun cause => (cause.get? "name").bind Json.text?

def render (e : NodeError) : String := "JSON-RPC error " ++ toString e.code ++ ": " ++ e.message

def member (name : String) : Option Json → List (String × Json)
  | some j => [(name, j)]
  | none => []

def toJson (e : NodeError) : Json :=
  .obj ([("code", .int e.code.toInt), ("message", .str e.message)] ++ member "data" e.data ++
    member "name" (e.name.map .str) ++ member "cause" e.cause)

def ofJson? (j : Json) : Option NodeError := do
  let r ← j.record? ["code", "message", "data", "name", "cause"]
  return {
    code := ← r.required "code" Json.signed?
    message := ← r.required "message" Json.text?
    data := ← r.optional "data" Json.canonical?
    name := ← r.nullable "name" Json.text?
    cause := ← r.nullable "cause" Json.canonical? }

end NodeError

structure Response where
  jsonrpc : String := version
  id : Id
  result : Option Json := none
  error : Option NodeError := none

namespace Response

/-- The result, null when there is none, unless the node reports an error. -/
def outcome (r : Response) : Except NodeError Json :=
  match r.error with
  | some e => .error e
  | none => .ok (r.result.getD .null)

def toJson (r : Response) : Json :=
  .obj ([("jsonrpc", .str r.jsonrpc), ("id", r.id.toJson)] ++ NodeError.member "result" r.result ++
    NodeError.member "error" (r.error.map NodeError.toJson))

def ofJson? (j : Json) : Option Response := do
  let r ← j.record? ["jsonrpc", "id", "result", "error"]
  return {
    jsonrpc := ← r.required "jsonrpc" Json.text?
    id := ← r.required "id" Id.ofJson?
    result := ← r.optional "result" Json.canonical?
    error := ← r.optional "error" NodeError.ofJson? }

/-- The answer to request `id`: of several, the last one. -/
def answer? (responses : List Response) (id : UInt64) : Option Response :=
  responses.reverse.find? (·.id.number? == some id)

def byId (responses : List Response) : List (UInt64 × Response) :=
  let ids := responses.filterMap (·.id.number?)
  ids.eraseDups.filterMap fun id => (answer? responses id).map (id, ·)

end Response

end ChainFeed.Rpc
