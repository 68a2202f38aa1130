import ChainFeed.Json.Record
import ChainFeed.Table
import ChainFeed.Text.Letters
import ChainFeed.Text.Numeral

/-!
# Logs, transactions and blocks

The records that every chain family is normalised into. Each record has one JSON form, written by
`toJson` and read by `ofJson?`.
-/

namespace ChainFeed

structure Log where
  address : String
  topics : List String
  data : String
  blockNumber : UInt64
  blockHash : String
  transactionHash : String
  /-- In decimal. -/
  transactionIndex : String
  logIndex : UInt64
  removed : Bool
  chainId : UInt64
  deriving DecidableEq, Repr

namespace Log

def hasAnyTopic (log : Log) (topics : List String) : Bool :=
  log.topics.any fun t => topics.any (Text.sameLetters · t)

/-- By block, then by place in the block; logs in one place are in order either way. -/
def notAfter (a b : Log) : Bool :=
  a.blockNumber < b.blockNumber || (a.blockNumber == b.blockNumber && a.logIndex ≤ b.logIndex)

def toJson (l : Log) : Json :=
  .obj [("address", .str l.address), ("topics", .strings l.topics), ("data", .str l.data),
    ("blockNumber", .word l.blockNumber), ("blockHash", .str l.blockHash),
    ("transactionHash", .str l.transactionHash), ("transactionIndex", .str l.transactionIndex),
    ("logIndex", .word l.logIndex), ("removed", .bool l.removed), ("chainId", .word l.chainId)]

def ofJson? (j : Json) : Option Log := do
  let r ← j.record? ["address", "topics", "data", "blockNumber", "blockHash", "transactionHash",
    "transactionIndex", "logIndex", "removed", "chainId"]
  return {
    address := ← r.required "address" Json.text?
    topics := ← r.required "topics" (Json.list? Json.text?)
    data := ← r.required "data" Json.text?
    blockNumber := ← r.required "blockNumber" Json.word?
    blockHash := ← r.required "blockHash" Json.text?
    transactionHash := ← r.required "transactionHash" Json.text?
    transactionIndex := ← r.required "transactionIndex" Json.text?
    logIndex := ← r.required "logIndex" Json.word?
    removed := ← r.required "removed" Json.bool?
    chainId := ← r.required "chainId" Json.word? }

end Log

inductive TxStatus where
  | success
  | reverted
  | unknown
  deriving DecidableEq, Repr

namespace TxStatus

def render : TxStatus → String
  | .success => "success"
  | .reverted => "reverted"
  | .unknown => "unknown"

def ofName? (s : String) : Option TxStatus :=
  [success, reverted, unknown].find? (·.render == s)

def ofJson? (j : Json) : Option TxStatus := j.variant?.bind ofName?

end TxStatus

/-- The outcome of a transaction, looked up by its hash. -/
structure Receipt where
  transactionHash : String
  blockNumber : UInt64
  blockHash : String
  sender : String
  receiver : Option String
  status : TxStatus
  logs : List Log
  gasUsed : Option UInt64
  deriving DecidableEq, Repr

namespace Receipt

def toJson (r : Receipt) : Json :=
  .obj [("transactionHash", .str r.transactionHash), ("blockNumber", .word r.blockNumber),
    ("blockHash", .str r.blockHash), ("from", .str r.sender), ("to", .strOrNull r.receiver),
    ("status", .str r.status.render), ("logs", .arr (r.logs.map Log.toJson)),
    ("gasUsed", (r.gasUsed.map Json.word).getD .null)]

def ofJson? (j : Json) : Option Receipt := do
  let r ← j.record? ["transactionHash", "blockNumber", "blockHash", "from", "to", "status", "logs",
    "gasUsed"]
  return {
    transactionHash := ← r.required "transactionHash" Json.text?
    blockNumber := ← r.required "blockNumber" Json.word?
    blockHash := ← r.required "blockHash" Json.text?
    sender := ← r.required "from" Json.text?
    receiver := ← r.optional "to" Json.text?
    status := ← r.required "status" TxStatus.ofJson?
    logs := ← r.required "logs" (Json.list? Log.ofJson?)
    gasUsed := ← r.optional "gasUsed" Json.word? }

end Receipt

/-- What a receipt is looked up by; only some families need the sender. -/
structure TxRef where
  hash : String
  sender : Option String
  deriving DecidableEq, Repr

namespace TxRef

def senderBefore : Option String → Option String → Bool
  | none, some _ => true
  | some a, some b => a < b
  | _, none => false

def before (a b : TxRef) : Bool := a.hash < b.hash || (a.hash == b.hash && senderBefore a.sender b.sender)

def toJson (t : TxRef) : Json := .obj [("hash", .str t.hash), ("sender", .strOrNull t.sender)]

def ofJson? (j : Json) : Option TxRef := do
  let r ← j.record? ["hash", "sender"]
  return { hash := ← r.required "hash" Json.text?, sender := ← r.optional "sender" Json.text? }

end TxRef

structure Transaction where
  hash : String
  blockNumber : UInt64
  blockHash : String
  sender : String
  receiver : Option String
  input : String := ""
  value : String := ""
  transactionIndex : String := ""
  status : Option TxStatus := none
  timestamp : Option Int64 := none
  logs : List Log := []
  chain : Option String := none
  chainId : Option UInt64 := none
  environment : Option String := none
  deriving DecidableEq, Repr

namespace Transaction

def involvesAny (tx : Transaction) (addresses : List String) : Bool :=
  addresses.any fun a => Text.sameLetters a tx.sender || tx.receiver.any (Text.sameLetters a)

/-- Takes status and logs from the receipt. The logs are stamped with the block and the index of the
transaction, which some families know only from the block. -/
def merge (tx : Transaction) (receipt : Receipt) : Transaction :=
  { tx with
    status := some receipt.status
    logs := receipt.logs.map fun log =>
      { log with
        blockNumber := tx.blockNumber
        blockHash := tx.blockHash
        transactionIndex := tx.transactionIndex } }

def enrich (tx : Transaction) (timestamp : Int64) (chain : String) (chainId : UInt64)
    (environment : Option String) : Transaction :=
  { tx with timestamp := some timestamp, chain := some chain, chainId := some chainId, environment }

def ref (tx : Transaction) : TxRef := ⟨tx.hash, some tx.sender⟩

def toJson (t : Transaction) : Json :=
  .obj [("hash", .str t.hash), ("blockNumber", .word t.blockNumber), ("blockHash", .str t.blockHash),
    ("from", .str t.sender), ("to", .strOrNull t.receiver), ("input", .str t.input),
    ("value", .str t.value), ("transactionIndex", .str t.transactionIndex),
    ("status", .strOrNull (t.status.map TxStatus.render)),
    ("timestamp", (t.timestamp.map fun s => .int s.toInt).getD .null),
    ("logs", .arr (t.logs.map Log.toJson)), ("chain", .strOrNull t.chain),
    ("chainId", (t.chainId.map Json.word).getD .null), ("environment", .strOrNull t.environment)]

def ofJson? (j : Json) : Option Transaction := do
  let r ← j.record? ["hash", "blockNumber", "blockHash", "from", "to", "input", "value",
    "transactionIndex", "status", "timestamp", "logs", "chain", "chainId", "environment"]
  return {
    hash := ← r.required "hash" Json.text?
    blockNumber := ← r.required "blockNumber" Json.word?
    blockHash := ← r.required "blockHash" Json.text?
    sender := ← r.required "from" Json.text?
    receiver := ← r.optional "to" Json.text?
    input := ← r.defaulted "input" "" Json.text?
    value := ← r.defaulted "value" "" Json.text?
    transactionIndex := ← r.defaulted "transactionIndex" "" Json.text?
    status := ← r.nullable "status" TxStatus.ofJson?
    timestamp := ← r.nullable "timestamp" Json.signed?
    logs := ← r.defaulted "logs" [] (Json.list? Log.ofJson?)
    chain := ← r.nullable "chain" Json.text?
    chainId := ← r.nullable "chainId" Json.word?
    environment := ← r.nullable "environment" Json.text? }

end Transaction

/-- A block. On some chains its number is a slot or a height. -/
structure Block where
  number : UInt64
  /-- Empty for a placeholder. -/
  hash : String
  /-- Unix time in seconds. -/
  timestamp : Int64
  /-- There only when asked for. -/
  transactions : Option (List Transaction) := none
  deriving DecidableEq, Repr

namespace Block

/-- Stands in for block `number`, which the node could not serve; `now` is the time of the clock on
the wall. -/
def placeholder (number : UInt64) (now : Int64) : Block := { number, hash := "", timestamp := now }

def isPlaceholder (b : Block) : Bool := b.hash.isEmpty

/-- The key of a block among others: its hash, or its number when it is a placeholder. -/
def key (b : Block) : String := if b.isPlaceholder then Quantity.render b.number else b.hash

def toJson (b : Block) : Json :=
  .obj ([("number", .word b.number), ("hash", .str b.hash), ("timestamp", .int b.timestamp.toInt)] ++
    match b.transactions with
    | some txs => [("transactions", .arr (txs.map Transaction.toJson))]
    | none => [])

def ofJson? (j : Json) : Option Block := do
  let r ← j.record? ["number", "hash", "timestamp", "transactions"]
  return {
    number := ← r.required "number" Json.word?
    hash := ← r.required "hash" Json.text?
    timestamp := ← r.required "timestamp" Json.signed?
    transactions := ← r.nullable "transactions" (Json.list? Transaction.ofJson?) }

end Block

abbrev BlockMap := Table Block

/-- Puts each block under its key; of two with one key the later one counts. -/
def BlockMap.ofBlocks (blocks : List Block) : BlockMap := Table.ofList (blocks.map fun b => (b.key, b))

abbrev ReceiptMap := Table Receipt

end ChainFeed
