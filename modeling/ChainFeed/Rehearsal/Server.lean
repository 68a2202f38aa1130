import ChainFeed.Rehearsal.World
import ChainFeed.Rpc.Http

/-!
# Rehearsing requests over HTTP

A server that replies from a script, and a node that is served over HTTP. Either may be out of reach.
-/

namespace ChainFeed.Rehearsal

open Rpc (Request TransportError)

def unreachedReason (url : String) : String := "error sending request for url (" ++ url ++ ")"

structure ServerReply where
  status : Nat
  body : String
  delay : Nat := 0
  deriving DecidableEq, Repr

/-- The reply when the script has come to its end. -/
def unscripted : ServerReply := { status := 500, body := "unscripted" }

structure Server where
  reachable : Bool := true
  replies : List ServerReply := []
  /-- The bodies it received, the latest first. -/
  received : List String := []
  deriving DecidableEq, Repr

namespace Server

def receive (body : String) (s : Server) : ServerReply × Server :=
  (s.replies.headD unscripted, { s with replies := s.replies.tail, received := body :: s.received })

def post (url : String) (timeout : UInt64) (body : String) : Activity Server Rpc.Http.Outcome := do
  if !(← Activity.update fun _ s => (s.reachable, s)) then return .unreached (unreachedReason url)
  else
    let reply ← Activity.update fun _ s => s.receive body
    Clock.sleep (min reply.delay timeout.toNat)
    return if timeout.toNat < reply.delay then .timedOut else .reply reply.status reply.body

def transport (config : Rpc.Http.Config) (url : String) : Rpc.Transport (Activity Server) :=
  Rpc.Http.transport (post url config.timeout) config url

def perform {α : Type} (now : Nat) (s : Server) (a : Activity Server α) : Option α × Nat × Server :=
  match a.runUntil none now s with
  | (.ended result at', s) => (some result, at', s)
  | (.waiting _, s) => (none, now, s)

end Server

namespace World

def failureStatus : TransportError → Nat
  | .rateLimited _ => 429
  | _ => 500

def served {α : Type} (form : α → Json) : Except TransportError α → Rpc.Http.Outcome
  | .ok a => .reply 200 (form a).render
  | .error e => .reply (failureStatus e) e.message

def postToNode (i : Nat) (body : String) : Act Rpc.Http.Outcome :=
  match Json.readValue? body with
  | some (.arr items) =>
    match items.mapM Request.ofJson? with
    | some rs => do
      return served (fun l => .arr (l.map Rpc.Response.toJson)) (← useNode i (Call.sentBatch · rs) (·.batch rs))
    | none => return .reply 400 "bad request"
  | some j =>
    match Request.ofJson? j with
    | some r => do return served Rpc.Response.toJson (← useNode i (Call.sent · r) (·.send r))
    | none => return .reply 400 "bad request"
  | none => return .reply 400 "bad request"

end World

end ChainFeed.Rehearsal
