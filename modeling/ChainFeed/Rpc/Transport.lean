import ChainFeed.Rpc.Message

/-!
# Transports

A transport carries requests to a node and brings back its responses, or says why it could not. It
is a capability of a monad `m`, which may keep state, wait, or do neither.
-/

namespace ChainFeed.Rpc

universe u

inductive TransportError where
  | http (message : String)
  | rpc (error : NodeError)
  | rateLimited (provider : String)
  | allProvidersDown
  | timeout (ms : UInt64)
  | undecodable
  | other (message : String)

namespace TransportError

def message : TransportError → String
  | .http m => "HTTP error: " ++ m
  | .rpc e => "RPC error " ++ toString e.code ++ ": " ++ e.message
  | .rateLimited p => "Rate limit exceeded (provider: " ++ p ++ ")"
  | .allProvidersDown => "All providers unavailable"
  | .timeout ms => "Request timed out after " ++ toString ms ++ "ms"
  | .undecodable => "Deserialization error"
  | .other m => m

def isRetryable : TransportError → Bool
  | .http _ | .timeout _ | .rateLimited _ => true
  | _ => false

end TransportError

inductive Health where
  | healthy
  | degraded
  | unhealthy
  | unknown
  deriving DecidableEq, Repr

def Health.render : Health → String
  | .healthy => "healthy"
  | .degraded => "degraded"
  | .unhealthy => "unhealthy"
  | .unknown => "unknown"

structure Transport (m : Type → Type u) where
  url : String
  send : Request → m (Except TransportError Response)
  batch : List Request → m (Except TransportError (List Response))
  health : m Health

/-- A batch sent one request after the other, up to the first failure. -/
def sequentially {m : Type → Type u} [Monad m] (send : Request → m (Except TransportError Response)) :
    List Request → m (Except TransportError (List Response))
  | [] => pure (.ok [])
  | r :: rs => do
    match ← send r with
    | .error e => return .error e
    | .ok response =>
      match ← sequentially send rs with
      | .error e => return .error e
      | .ok responses => return .ok (response :: responses)

end ChainFeed.Rpc
