import ChainFeed.Chain.Ascending
import ChainFeed.Chain.Filter
import ChainFeed.Json.Printer
import ChainFeed.Rpc.Transport
import ChainFeed.Text.Quoted

/-!
# Repositories

A repository answers questions about the chains of one family: how far they have come, and which
blocks, logs and receipts they hold.
-/

namespace ChainFeed

universe u

open Rpc (TransportError)

inductive ProtocolFault where
  | unparseable
  | malformed (what : String)
  | badHex (field text : String)
  | unanswered (method : String) (id : UInt64)
  | without (subject part : String)
  | notFound (subject chain : String)
  | badSlot (value : Json)
  | other (message : String)

def ProtocolFault.message : ProtocolFault → String
  | .unparseable => "unparseable response"
  | .malformed what => "malformed " ++ what
  | .badHex field text => "invalid hex in " ++ field ++ ": " ++ Text.quoted text
  | .unanswered method id => method ++ ": no response for request id " ++ toString id
  | .without subject part => subject ++ " without " ++ part
  | .notFound subject chain => subject ++ " not found on " ++ chain
  | .badSlot value => "getSlot returned " ++ value.render
  | .other m => m

inductive RepositoryError where
  | transport (error : TransportError)
  | protocol (fault : ProtocolFault)
  | unknownChain (chain : String)
  | circuitOpen (chain : String)
  | rateLimited (chain : String)
  | invalidArgument (message : String)
  /-- The pages of a history did not come to an end within the number of pages allowed. -/
  | endlessHistory (address : String)

namespace RepositoryError

def message : RepositoryError → String
  | .transport e => "transport error: " ++ e.message
  | .protocol fault => "protocol error: " ++ fault.message
  | .unknownChain chain => "unknown chain: " ++ chain
  | .circuitOpen chain => "circuit breaker open for chain " ++ chain
  | .rateLimited chain => "rate limit exceeded for chain " ++ chain
  | .invalidArgument m => "invalid argument: " ++ m
  | .endlessHistory address => "endless signature history of " ++ address

def isRetryable : RepositoryError → Bool
  | .transport e => e.isRetryable
  | .rateLimited _ => true
  | _ => false

def isCircuitOpen : RepositoryError → Bool
  | .circuitOpen _ => true
  | _ => false

/-- The error of a transport, in which an unreadable body is the node breaking the protocol. -/
def ofTransport : TransportError → RepositoryError
  | .undecodable => .protocol .unparseable
  | e => .transport e

end RepositoryError

structure Repository (m : Type → Type u) where
  height : String → BlockTag → m (Except RepositoryError UInt64)
  /-- Blocks that the node cannot serve come back as placeholders. -/
  blocks : String → BlockSet → Bool → m (Except RepositoryError BlockMap)
  block : String → BlockTag → Bool → m (Except RepositoryError Block)
  logs : String → LogFilter → m (Except RepositoryError (List Log))
  /-- One receipt that cannot be read fails the whole call. -/
  receipts : String → TxRefSet → m (Except RepositoryError ReceiptMap)

structure ChainSettings (m : Type → Type u) where
  chainId : UInt64
  transport : Rpc.Transport m

abbrev Registry (m : Type → Type u) := List (String × ChainSettings m)

namespace Registry

variable {m : Type → Type u}

def insert (r : Registry m) (name : String) (settings : ChainSettings m) : Registry m :=
  (name, settings) :: r.filter (·.1 != name)

def get (r : Registry m) (name : String) : Except RepositoryError (ChainSettings m) :=
  match r.find? (·.1 == name) with
  | some (_, settings) => .ok settings
  | none => .error (.unknownChain name)

def names (r : Registry m) : List String := r.map (·.1)

end Registry

end ChainFeed
