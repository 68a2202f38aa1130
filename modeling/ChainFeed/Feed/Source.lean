import ChainFeed.Feed.Logs
import ChainFeed.Feed.Poller
import ChainFeed.Feed.Transactions

/-!
# Sources

What a poller fetches: the logs or the transactions of a range, as records of one kind.
-/

namespace ChainFeed

universe u

inductive Emitted where
  | log (l : EnrichedLog)
  | transaction (t : Transaction)
  deriving DecidableEq, Repr

def Emitted.toJson : Emitted → Json
  | .log l => l.toJson
  | .transaction t => t.toJson

inductive Source where
  | logs (options : LogsOptions)
  | transactions (options : TransactionsOptions)

namespace Source

variable {m : Type → Type u} [Monad m]

def fetch (s : Source) (repo : Repository m) (r : BlockRange) : m (Except PollError (List Emitted)) :=
  match s with
  | .logs o => do return ((← (o.fetch repo r).run).map fun ls => ls.map Emitted.log)
  | .transactions o => do return ((← (o.fetch repo r).run).map fun ts => ts.map Emitted.transaction)

def poller (s : Source) (config : PollerConfig) (repo : Repository m)
    (publish : String → List Emitted → m (Except PollError PUnit)) (count : Metric → m PUnit) :
    Poller m Emitted where
  config
  height := repo.height
  fetch := s.fetch repo
  publish
  count

end Source

end ChainFeed
