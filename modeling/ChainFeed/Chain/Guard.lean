import ChainFeed.Chain.Repository
import ChainFeed.Clock
import ChainFeed.Metrics
import ChainFeed.Policy.Breaker
import ChainFeed.Policy.Retry
import ChainFeed.Policy.TokenBucket

/-!
# Guarded repositories

A guard stands before every call to a chain. In each round an open breaker refuses the call, then the
bucket must give a token, then the breaker must admit the call; its outcome is recorded. Rounds are
repeated, some time apart, while the failure is one that may pass.
-/

namespace ChainFeed

universe u

/-- How the calls of a chain are guarded; times are in milliseconds. -/
structure Resilience where
  period : Nat := 10000
  limit : Nat := 1000
  /-- The time between rounds. -/
  interval : UInt64 := 1000
  /-- Rounds after the first. -/
  attempts : Nat := 2
  breaker : Breaker.Config := {}

structure Guard where
  bucket : TokenBucket Float
  breaker : Breaker

namespace Guard

def fresh (c : Resilience) (now : Nat) : Guard :=
  { bucket := .full (c.period * 1000) c.limit now, breaker := .initial }

def onBreaker {α : Type} (f : Breaker → α × Breaker) (g : Guard) : α × Guard :=
  let (a, breaker) := f g.breaker
  (a, { g with breaker })

def onBucket {α : Type} (f : TokenBucket Float → α × TokenBucket Float) (g : Guard) : α × Guard :=
  let (a, bucket) := f g.bucket
  (a, { g with bucket })

end Guard

abbrev Guards := Table Guard

def Guards.on {α : Type} (c : Resilience) (now : Nat) (chain : String) (f : Guard → α × Guard)
    (gs : Guards) : α × Guards :=
  let (a, g) := f ((Table.get? gs chain).getD (.fresh c now))
  (a, Table.insert gs chain g)

structure GuardPost (m : Type → Type u) where
  config : Resilience
  guards : Shared m Guards
  count : Metric → m PUnit

namespace GuardPost

variable {m : Type → Type u} [Monad m] [Clock m] {α : Type}

def on {β : Type} (post : GuardPost m) (chain : String) (f : Nat → Guard → β × Guard) : m β := do
  let now ← Clock.now
  post.guards.update (Guards.on post.config now chain (f now))

def phase (post : GuardPost m) (chain : String) : m Breaker.Phase :=
  post.on chain fun now => Guard.onBreaker (·.observe post.config.breaker now)

def takeToken (post : GuardPost m) (chain : String) : m Bool :=
  post.on chain fun now => Guard.onBucket (·.acquire now)

def enter (post : GuardPost m) (chain : String) : m Bool :=
  post.on chain fun now => Guard.onBreaker (·.acquire post.config.breaker now)

def record (post : GuardPost m) (chain : String) (ok : Bool) : m PUnit :=
  post.on chain fun now => Guard.onBreaker fun b => ((), b.record post.config.breaker now ok)

def round (post : GuardPost m) (chain method : String) (call : m (Except RepositoryError α)) :
    m (Except RepositoryError α) := do
  if (← post.phase chain) = .opened then return .error (.circuitOpen chain)
  else if !(← post.takeToken chain) then return .error (.rateLimited chain)
  else if !(← post.enter chain) then return .error (.circuitOpen chain)
  else
    let result ← call
    post.record chain result.isOk
    post.count (.rpc chain method result.isOk)
    return result

/-- A guarded call: rounds until one succeeds, fails for good, or no attempt is left. -/
def call (post : GuardPost m) (chain method : String) (call : m (Except RepositoryError α)) :
    m (Except RepositoryError α) :=
  (Retry.fixed post.config.attempts post.config.interval).run RepositoryError.isRetryable
    (post.round chain method call)

def repository (post : GuardPost m) (inner : Repository m) : Repository m where
  height chain tag := post.call chain "get_block_height" (inner.height chain tag)
  blocks chain numbers full := post.call chain "get_blocks" (inner.blocks chain numbers full)
  block chain tag full := post.call chain "get_block" (inner.block chain tag full)
  logs chain filter := post.call chain "get_filtered_logs" (inner.logs chain filter)
  receipts chain refs := post.call chain "get_transaction_receipts" (inner.receipts chain refs)

end GuardPost

end ChainFeed
