import ChainFeed.Json.Printer
import ChainFeed.Json.Reader
import ChainFeed.Policy.Retry
import ChainFeed.Rpc.Transport

/-!
# Requests over HTTP

Each call is one POST; a batch is one POST of a list. Calls that fail in a way that may pass are
repeated, farther and farther apart.
-/

namespace ChainFeed.Rpc.Http

universe u

structure Config where
  retry : Retry := {}
  /-- How long a reply may take, in milliseconds. -/
  timeout : UInt64 := 30000

inductive Outcome where
  | reply (status : Nat) (body : String)
  | timedOut
  /-- The server was not reached. -/
  | unreached (reason : String)

def Outcome.result {α : Type} (o : Outcome) (url : String) (timeout : UInt64)
    (read : Json → Option α) : Except TransportError α :=
  match o with
  | .timedOut => .error (.timeout timeout)
  | .unreached reason => .error (.http reason)
  | .reply status body =>
    if status = 429 then .error (.rateLimited url)
    else if status < 200 ∨ 300 ≤ status then
      .error (.http ("HTTP " ++ toString status ++ ": " ++ body))
    else
      match (Json.read? body).bind read with
      | some a => .ok a
      | none => .error .undecodable

variable {m : Type → Type u} [Monad m] [Clock m]

def exchange {α : Type} (post : String → m Outcome) (config : Config) (url : String) (body : Json)
    (read : Json → Option α) : m (Except TransportError α) :=
  config.retry.run TransportError.isRetryable do
    return (← post body.render).result url config.timeout read

/-- The client as a transport; an empty batch is not posted. -/
def transport (post : String → m Outcome) (config : Config) (url : String) : Transport m where
  url
  send r := exchange post config url r.toJson Response.ofJson?
  batch rs :=
    if rs.isEmpty then pure (.ok [])
    else exchange post config url (.arr (rs.map Request.toJson)) (Json.list? Response.ofJson?)
  health := pure .unknown

end ChainFeed.Rpc.Http
