import ChainFeed.Feed.Range

/-!
# The logs of a range

One filtered query for the logs, then one for the blocks they are in, whose times the logs are given.
Removed logs and logs outside the range are dropped.
-/

namespace ChainFeed

universe u

structure LogsOptions where
  addresses : List String := []
  /-- What the first topic may be; nothing listed means anything. -/
  topics : List String := []
  chain : String
  chainId : UInt64

structure EnrichedLog where
  log : Log
  blockTimestamp : Int64
  chain : String
  chainId : UInt64
  deriving DecidableEq, Repr

def EnrichedLog.toJson (e : EnrichedLog) : Json :=
  .obj [("log", e.log.toJson), ("blockTimestamp", .int e.blockTimestamp.toInt),
    ("chain", .str e.chain), ("chainId", .word e.chainId)]

namespace LogsOptions

def filter (o : LogsOptions) (r : BlockRange) : LogFilter :=
  let f : LogFilter := { addresses := o.addresses, fromBlock := r.first, toBlock := r.last }
  if o.topics.isEmpty then f else f.addTopic o.topics

def kept (filter : LogFilter) (logs : List Log) : List Log :=
  (logs.filter fun l => !l.removed && filter.containsBlock l.blockNumber).mergeSort Log.notAfter

/-- The time of block `n`, zero when it is not among the blocks. -/
def timeOf (blocks : BlockMap) (n : UInt64) : Int64 :=
  ((blocks.values.find? (·.number == n)).map (·.timestamp)).getD 0

variable {m : Type → Type u} [Monad m]

def fetch (repo : Repository m) (o : LogsOptions) (r : BlockRange) :
    ExceptT PollError m (List EnrichedLog) := do
  if r.isEmpty then return []
  let filter := o.filter r
  let logs := kept filter (← asking (repo.logs o.chain filter))
  if logs.isEmpty then return []
  let blocks ← asking (repo.blocks o.chain (.ofList (logs.map (·.blockNumber))) false)
  return logs.map fun log =>
    { log, blockTimestamp := timeOf blocks log.blockNumber, chain := o.chain, chainId := o.chainId }

end LogsOptions

end ChainFeed
