import ChainFeed.Config.Basic
import ChainFeed.Family.Evm
import ChainFeed.Family.Near
import ChainFeed.Family.Solana
import ChainFeed.Feed.Source
import ChainFeed.Rpc.Pool

/-!
# Services

A service runs the pollers of a configuration. The calls to a chain go through its guard to the
repository of its family, from there to the pool of its endpoints, and over HTTP to one of them.
-/

namespace ChainFeed

universe u

def ChainFamily.repository {m : Type → Type u} [Monad m] [Clock m] (f : ChainFamily) (chains : Registry m) :
    Repository m :=
  match f with
  | .evm => Evm.repository chains
  | .solana => Solana.repository chains {}
  | .near => Near.repository chains {}

structure Surroundings (m : Type → Type u) where
  /-- Posts a body to an address; a reply may take so many milliseconds. -/
  post : String → UInt64 → String → m Rpc.Http.Outcome
  pools : Shared m (Table Rpc.Pool)
  guards : Shared m Guards
  count : Metric → m PUnit
  publish : String → List Emitted → m (Except PollError PUnit)

namespace Surroundings

variable {m : Type → Type u} [Monad m] [Clock m]

def endpoint (s : Surroundings m) (c : Rpc.Http.Config) (url : String) : Rpc.Transport m :=
  Rpc.Http.transport (s.post url c.timeout) c url

def pool (s : Surroundings m) (name : String) (c : ChainEntry) : Rpc.Transport m :=
  Rpc.Pool.transport (s.pools.entry name (.ofUrls c.rpcs)) (c.rpcs.map (s.endpoint c.http)) c.cooldown name

def repository (s : Surroundings m) (name : String) (c : ChainEntry) : Repository m :=
  let post : GuardPost m := { config := c.resilience, guards := s.guards, count := s.count }
  post.repository (c.family.repository [(name, ⟨c.chainId, s.pool name c⟩)])

def source (config : Config) (p : PollerEntry) (c : ChainEntry) : Source :=
  match p.kind with
  | .logs =>
    .logs { addresses := p.addresses, topics := p.topics, chain := p.config.chain, chainId := c.chainId }
  | .transactions =>
    .transactions {
      addresses := p.addresses, topics := p.topics, chain := p.config.chain, chainId := c.chainId
      environment := config.environment }

/-- A poller of a configuration; there is none on a chain that the configuration lacks. -/
def poller? (s : Surroundings m) (config : Config) (p : PollerEntry) : Option (Poller m Emitted) :=
  (config.chain? p.config.chain).map fun c =>
    (source config p c).poller p.config (s.repository p.config.chain c) s.publish s.count

def pollers (s : Surroundings m) (config : Config) : List (Poller m Emitted) :=
  config.pollers.filterMap (s.poller? config)

end Surroundings

end ChainFeed
