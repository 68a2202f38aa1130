import ChainFeed.Family.Exchange
import ChainFeed.Json.Reader

/-!
# The Near family

Blocks list chunks, and chunks hold the transactions. A receipt is looked up by hash and sender.
There is no log query: the blocks of a range are scanned for transactions to the accounts of the
filter, and the logs are the events that the outcomes of those transactions announce.
-/

namespace ChainFeed.Near

universe u

open Rpc (Request Response Transport)
open Family

def unknownBlock : String := "UNKNOWN_BLOCK"

def eventMark : String := "EVENT_JSON:"

def event? (line : String) : Option (String × String) := do
  let body := Text.trim (← Text.afterStart? eventMark line)
  let name ← (← (← Json.readValue? body).get? "event").text?
  return (name, body)

structure RawBlock where
  height : Option UInt64
  hash : Option String
  /-- Nanoseconds since 1970. -/
  timestamp : Option UInt64
  chunks : List String

namespace RawBlock

def chunkHash? (j : Json) : Option String := do
  let r ← j.record? ["chunk_hash"]
  r.required "chunk_hash" Json.text?

def header? (j : Json) : Option (Option UInt64 × Option String × Option UInt64) := do
  let r ← j.record? ["height", "hash", "timestamp"]
  return (← r.optional "height" Json.word?, ← r.optional "hash" Json.text?,
    ← r.optional "timestamp" Json.word?)

def ofJson? (j : Json) : Option RawBlock := do
  let r ← j.record? ["header", "chunks"]
  let (height, hash, timestamp) ← r.required "header" header?
  return { height, hash, timestamp, chunks := ← r.defaulted "chunks" [] (Json.list? chunkHash?) }

end RawBlock

structure RawTransaction where
  hash : String
  signer : String
  receiver : String

namespace RawTransaction

def ofJson? (j : Json) : Option RawTransaction := do
  let r ← j.record? ["hash", "signer_id", "receiver_id"]
  return {
    hash := ← r.required "hash" Json.text?
    signer := ← r.required "signer_id" Json.text?
    receiver := ← r.required "receiver_id" Json.text? }

def ofChunk? (j : Json) : Option (List RawTransaction) := do
  let r ← j.record? ["transactions"]
  r.defaulted "transactions" [] (Json.list? ofJson?)

def inBlock (t : RawTransaction) (b : Block) (index : Nat) : Transaction :=
  { hash := t.hash
    blockNumber := b.number
    blockHash := b.hash
    sender := t.signer
    receiver := some t.receiver
    transactionIndex := toString index }

end RawTransaction

structure Outcome where
  blockHash : String
  logs : List String
  executor : String
  gas : UInt64

namespace Outcome

def ofJson? (j : Json) : Option Outcome := do
  let r ← j.record? ["block_hash", "outcome"]
  let inner ← r.required "outcome" (·.record? ["logs", "executor_id", "gas_burnt"])
  return {
    blockHash := ← r.required "block_hash" Json.text?
    logs := ← inner.defaulted "logs" [] (Json.list? Json.text?)
    executor := ← inner.required "executor_id" Json.text?
    gas := ← inner.defaulted "gas_burnt" 0 Json.word? }

def events (o : Outcome) : List (Outcome × String × String) :=
  (o.logs.filterMap event?).map (o, ·)

end Outcome

structure RawStatus where
  status : Json
  transaction : RawTransaction
  first : Outcome
  others : List Outcome

namespace RawStatus

def ofJson? (j : Json) : Option RawStatus := do
  let r ← j.record? ["status", "transaction", "transaction_outcome", "receipts_outcome"]
  return {
    status := ← r.defaulted "status" .null Json.canonical?
    transaction := ← r.required "transaction" RawTransaction.ofJson?
    first := ← r.required "transaction_outcome" Outcome.ofJson?
    others := ← r.defaulted "receipts_outcome" [] (Json.list? Outcome.ofJson?) }

def outcomes (s : RawStatus) : List Outcome := s.first :: s.others

def txStatus (s : RawStatus) : TxStatus :=
  if (s.status.get? "SuccessValue").isSome || (s.status.get? "SuccessReceiptId").isSome then .success
  else if (s.status.get? "Failure").isSome then .reverted
  else .unknown

def logs (s : RawStatus) (chainId : UInt64) : List Log :=
  (s.outcomes.flatMap Outcome.events).zipIdx.map fun ((o, name, body), i) =>
    { address := o.executor
      topics := [name]
      data := body
      blockNumber := 0
      blockHash := o.blockHash
      transactionHash := s.transaction.hash
      transactionIndex := "0"
      logIndex := UInt64.ofNat i
      removed := false
      chainId }

/-- The gas of all outcomes, at most the greatest word. -/
def gas (s : RawStatus) : UInt64 :=
  UInt64.ofNat (min (s.outcomes.foldl (fun n o => n + o.gas.toNat) 0) (UInt64.size - 1))

end RawStatus

def readBlock (j : Json) : Except RepositoryError (Block × List String) := do
  let raw ← readPart "block" RawBlock.ofJson? j
  let number ← present "block header" "height" raw.height
  let subject := "block " ++ toString number
  let hash ← present subject "hash" (nonEmpty raw.hash)
  let timestamp ← present subject "timestamp" raw.timestamp
  return ({ number, hash, timestamp := (timestamp / 1000000000).toInt64 }, raw.chunks)

def readReceipt (chainId : UInt64) (j : Json) : Except RepositoryError Receipt := do
  let raw ← readPart "EXPERIMENTAL_tx_status result" RawStatus.ofJson? j
  return {
    transactionHash := raw.transaction.hash
    blockNumber := 0
    blockHash := raw.first.blockHash
    sender := raw.transaction.signer
    receiver := some raw.transaction.receiver
    status := raw.txStatus
    logs := raw.logs chainId
    gasUsed := some raw.gas }

def tagParams : BlockTag → Json
  | .number n => .object [("block_id", .word n)]
  | .latest => .object [("finality", .str "optimistic")]
  | .safe => .object [("finality", .str "near-final")]
  | .finalized => .object [("finality", .str "final")]

def blockMethod : String := "block"

def blockRequest (id : UInt64) (tag : BlockTag) : Request := .named id blockMethod (tagParams tag)

def dialect : BlockDialect (Block × List String) where
  method := blockMethod
  request n := blockRequest n (.number n)
  isUnavailable e := e.causeName? == some unknownBlock
  read _ := readBlock

def chunkMethod : String := "chunk"

def chunkRequests (blocks : List (Block × List String)) : List Request :=
  (blocks.flatMap (·.2)).zipIdx.map fun (chunk, i) =>
    .named (UInt64.ofNat i) chunkMethod (.object [("chunk_id", .str chunk)])

def chunkTransactions (responses : List Response) (i : Nat) :
    Except RepositoryError (List RawTransaction) :=
  (answer responses chunkMethod (UInt64.ofNat i)).bind fun response =>
    (result response).bind (readPart "chunk" RawTransaction.ofChunk?)

/-- Gives every block the transactions of its chunks; the next block's chunks are numbered from
`next` on. -/
def fillBlocks (responses : List Response) :
    Nat → List (Block × List String) → Except RepositoryError (List Block)
  | _, [] => .ok []
  | next, (b, chunks) :: rest =>
    match (List.range' next chunks.length).mapM (chunkTransactions responses) with
    | .error e => .error e
    | .ok found =>
      let transactions := found.flatten.zipIdx.map fun (t, i) => t.inBlock b i
      (fillBlocks responses (next + chunks.length) rest).map
        ({ b with transactions := some transactions } :: ·)

structure Scan where
  /-- Blocks of one batch; none count as one. -/
  batch : UInt64 := 50

def Scan.size (s : Scan) : Nat := max s.batch.toNat 1

def receiptLookup (chainId : UInt64) : Lookup TxRef Receipt where
  method := "EXPERIMENTAL_tx_status"
  params ref := [.str ref.hash, .strOrNull ref.sender]
  read := readReceipt chainId

variable {m : Type → Type u} [Monad m]

def attachTransactions (t : Transport m) (blocks : List (Block × List String)) :
    ExceptT RepositoryError m (List Block) := do
  let responses ← askAll t (chunkRequests blocks)
  having (fillBlocks responses 0 blocks)

def complete (t : Transport m) (full : Bool) (blocks : List (Block × List String)) :
    ExceptT RepositoryError m (List Block) :=
  if full then attachTransactions t blocks else pure (blocks.map (·.1))

def block (chains : Registry m) (chain : String) (tag : BlockTag) (full : Bool) :
    ExceptT RepositoryError m Block :=
  serving chains chain fun settings => do
    let value ← ask settings.transport (blockRequest 1 tag)
    if value.isNull then throw (.protocol (.notFound ("block " ++ tag.render) chain))
    else
      let found ← having (readBlock value)
      return (← complete settings.transport full [found]).headD found.1

def height (chains : Registry m) (chain : String) (tag : BlockTag) :
    ExceptT RepositoryError m UInt64 :=
  match tag with
  | .number n => throw (.invalidArgument ("height needs a finality tag, got block " ++ toString n))
  | tag => do return (← block chains chain tag false).number

/-- The blocks that the node serves come before the placeholders. -/
def blocks [Clock m] (chains : Registry m) (chain : String) (numbers : BlockSet) (full : Bool) :
    ExceptT RepositoryError m BlockMap :=
  serving chains chain fun settings => do
    let found ← dialect.fetch settings.transport numbers
    let now ← (Clock.unixTime : m Int64)
    let served ← complete settings.transport full (found.filterMap (·.2))
    let missing := found.filterMap fun (n, b) => if b.isNone then some (Block.placeholder n now) else none
    return .ofBlocks (served ++ missing)

def receipts (chains : Registry m) (chain : String) (refs : TxRefSet) :
    ExceptT RepositoryError m ReceiptMap :=
  serving chains chain fun settings =>
    match refs.toList.find? (·.sender.isNone) with
    | some ref =>
      throw (.invalidArgument ("near receipt lookup for " ++ ref.hash ++ " needs the sender account"))
    | none => do
      let found ← (receiptLookup settings.chainId).fetch settings.transport refs.toList
      return .ofList (found.map fun (ref, r) => (ref.hash, r))

def addressed (filter : LogFilter) (blocks : List Block) : List Transaction :=
  (blocks.flatMap fun b => b.transactions.getD []).filter fun tx => tx.receiver.any filter.matchesAddress

/-- Scans the blocks from `first` to `last` in batches of `size`. -/
def scan (fetch : BlockSet → ExceptT RepositoryError m BlockMap) (filter : LogFilter)
    (size last first : Nat) : ExceptT RepositoryError m (List Transaction) := do
  let stop := min (first + (size - 1)) last
  let found ← fetch (.range first stop)
  let transactions := addressed filter found.values
  if _h : last ≤ stop then return transactions
  else return transactions ++ (← scan fetch filter size last (stop + 1))
termination_by last + 1 - first
decreasing_by omega

/-- Order of logs by block, by place in the transaction, and then by transaction. -/
def logNotAfter (a b : Log) : Bool :=
  if a.blockNumber == b.blockNumber && a.logIndex == b.logIndex then
    a.transactionHash ≤ b.transactionHash
  else a.notAfter b

def selectedLogs (filter : LogFilter) (transactions : List Transaction) (hash : String) (r : Receipt) :
    List Log :=
  match transactions.reverse.find? (·.hash == hash) with
  | none => []
  | some tx =>
    let topics := filter.flatTopics
    (r.logs.filter fun log =>
      filter.matchesAddress log.address && (topics.isEmpty || log.hasAnyTopic topics)).map fun log =>
        { log with
          blockNumber := tx.blockNumber
          blockHash := tx.blockHash
          transactionIndex := tx.transactionIndex }

def logs [Clock m] (chains : Registry m) (options : Scan) (chain : String) (filter : LogFilter) :
    ExceptT RepositoryError m (List Log) :=
  serving chains chain fun _ =>
    if filter.isEmptyRange then return []
    else if filter.addresses.isEmpty then
      throw (.invalidArgument "near log queries need at least one account")
    else do
      let transactions ← scan (blocks chains chain · true) filter options.size filter.toBlock.toNat
        filter.fromBlock.toNat
      let found ← receipts chains chain (.ofList (transactions.map (·.ref)))
      let selected := found.flatMap fun (hash, r) => selectedLogs filter transactions hash r
      return selected.mergeSort logNotAfter

def repository [Clock m] (chains : Registry m) (options : Scan) : Repository m where
  height chain tag := (height chains chain tag).run
  blocks chain numbers full := (blocks chains chain numbers full).run
  block chain tag full := (block chains chain tag full).run
  logs chain filter := (logs chains options chain filter).run
  receipts chain refs := (receipts chains chain refs).run

end ChainFeed.Near
