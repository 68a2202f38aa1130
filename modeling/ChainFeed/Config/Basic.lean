import ChainFeed.Chain.Guard
import ChainFeed.Feed.Poller
import ChainFeed.Rpc.Http

/-!
# Configurations

What a service is told to do: which chains there are, which pollers run on them, and what is logged.
A configuration is checked before it is used.
-/

namespace ChainFeed

inductive ChainFamily where
  | evm
  | solana
  | near
  deriving DecidableEq, Repr

namespace ChainFamily

def name : ChainFamily → String
  | .evm => "evm"
  | .solana => "solana"
  | .near => "near"

def title : ChainFamily → String
  | .evm => "Evm"
  | .solana => "Solana"
  | .near => "Near"

def ofName? (s : String) : Option ChainFamily := [evm, solana, near].find? (·.name == s)

def unknownMessage (s : String) : String :=
  "unknown chain family '" ++ s ++ "' (expected evm, solana or near)"

end ChainFamily

inductive PollerKind where
  | logs
  | transactions
  deriving DecidableEq, Repr

namespace PollerKind

def name : PollerKind → String
  | .logs => "logs"
  | .transactions => "transactions"

def title : PollerKind → String
  | .logs => "Logs"
  | .transactions => "Transactions"

def ofName? (s : String) : Option PollerKind := [logs, transactions].find? (·.name == s)

end PollerKind

structure LogSettings where
  level : String := "info"
  components : List (String × String) := []
  json : Bool := false
  deriving DecidableEq, Repr

/-- The level and the levels of components in one text; a component has underscores for hyphens. -/
def LogSettings.directives (l : LogSettings) : String :=
  l.level ++ String.join (l.components.map fun (component, level) =>
    "," ++ component.map (fun c => if c = '-' then '_' else c) ++ "=" ++ level)

structure ChainEntry where
  family : ChainFamily
  chainId : UInt64
  rpcs : List String
  requestTimeout : UInt64 := 10000
  retries : Nat := 2
  /-- How long an endpoint that failed is skipped. -/
  cooldown : Nat := 30000
  resilience : Resilience := {}

def ChainEntry.http (c : ChainEntry) : Rpc.Http.Config :=
  { retry := { maxRetries := c.retries }, timeout := c.requestTimeout }

structure PollerEntry where
  kind : PollerKind
  config : PollerConfig
  addresses : List String := []
  topics : List String := []

structure Config where
  log : LogSettings := {}
  /-- Every transaction carries it. -/
  environment : Option String := none
  /-- In the order of their names. -/
  chains : List (String × ChainEntry)
  pollers : List PollerEntry := []

inductive ConfigError where
  | unreadable
  | noChains
  | noEndpoints (chain : String)
  | duplicatePoller (id : String)
  | unknownChain (poller chain : String)
  | emptyBatch (poller : String)
  | reversedRange (poller : String) (first last : UInt64)
  deriving DecidableEq, Repr

def ConfigError.message : ConfigError → String
  | .unreadable => "invalid YAML"
  | .noChains => "no chains configured"
  | .noEndpoints chain => "chain '" ++ chain ++ "' has no rpcs"
  | .duplicatePoller id => "duplicate poller id '" ++ id ++ "'"
  | .unknownChain poller chain => "poller '" ++ poller ++ "' refers to unknown chain '" ++ chain ++ "'"
  | .emptyBatch poller => "poller '" ++ poller ++ "': block_batch_size must be positive"
  | .reversedRange poller first last =>
    "poller '" ++ poller ++ "': from_block " ++ toString first ++ " is after to_block " ++ toString last

namespace Config

def chain? (c : Config) (name : String) : Option ChainEntry :=
  (c.chains.find? (·.1 == name)).map (·.2)

def pollerFault? (c : Config) (earlier : List String) (p : PollerConfig) : Option ConfigError :=
  if earlier.contains p.id then some (.duplicatePoller p.id)
  else if (c.chain? p.chain).isNone then some (.unknownChain p.id p.chain)
  else if p.batch = 0 then some (.emptyBatch p.id)
  else
    match p.fromBlock, p.toBlock with
    | some first, some last => if last < first then some (.reversedRange p.id first last) else none
    | _, _ => none

def pollersFault? (c : Config) : List String → List PollerEntry → Option ConfigError
  | _, [] => none
  | earlier, p :: rest =>
    (c.pollerFault? earlier p.config).or (c.pollersFault? (p.config.id :: earlier) rest)

/-- The first thing that is wrong with a configuration: chains come before pollers. -/
def fault? (c : Config) : Option ConfigError :=
  if c.chains.isEmpty then some .noChains
  else
    match c.chains.find? (·.2.rpcs.isEmpty) with
    | some (name, _) => some (.noEndpoints name)
    | none => c.pollersFault? [] c.pollers

end Config

end ChainFeed
