import ChainFeed.Feed.Range

/-!
# The transactions of a range

Blocks are fetched one by one. Of each block the transactions that touch one of the addresses are
looked up, and those are kept whose receipt has a log with one of the topics.
-/

namespace ChainFeed

universe u

structure TransactionsOptions where
  /-- Senders or receivers, letter case aside. -/
  addresses : List String := []
  /-- A transaction needs a log with one of these. -/
  topics : List String := []
  chain : String
  chainId : UInt64
  environment : Option String := none

namespace TransactionsOptions

def select (o : TransactionsOptions) (b : Block) (receipts : ReceiptMap) (tx : Transaction) :
    Option Transaction :=
  match receipts.get? tx.hash with
  | none => none
  | some receipt =>
    if receipt.logs.any (·.hasAnyTopic o.topics) then
      some ((tx.merge receipt).enrich b.timestamp o.chain o.chainId o.environment)
    else none

def candidates (o : TransactionsOptions) (blocks : BlockMap) : Option (Block × List Transaction) :=
  match blocks.values.head? with
  | none => none
  | some b =>
    if b.isPlaceholder then none
    else some (b, (b.transactions.getD []).filter (·.involvesAny o.addresses))

variable {m : Type → Type u} [Monad m]

def fetchBlock (repo : Repository m) (o : TransactionsOptions) (n : UInt64) :
    ExceptT PollError m (List Transaction) := do
  match o.candidates (← asking (repo.blocks o.chain (.single n) true)) with
  | none => return []
  | some (_, []) => return []
  | some (b, txs) =>
    let receipts ← asking (repo.receipts o.chain (.ofList (txs.map (·.ref))))
    return txs.filterMap (o.select b receipts)

def fetchFrom (repo : Repository m) (o : TransactionsOptions) :
    Nat → Nat → ExceptT PollError m (List Transaction)
  | 0, _ => return []
  | count + 1, n => do
    let txs ← o.fetchBlock repo (UInt64.ofNat n)
    let others ← fetchFrom repo o count (n + 1)
    return txs ++ others

/-- Fetches the transactions of a range. Without topics no transaction can match. -/
def fetch (repo : Repository m) (o : TransactionsOptions) (r : BlockRange) :
    ExceptT PollError m (List Transaction) :=
  if r.isEmpty || o.topics.isEmpty then return []
  else o.fetchFrom repo r.size r.first.toNat

end TransactionsOptions

end ChainFeed
