import ChainFeed.Family.Exchange

/-!
# The Ethereum family

Blocks, logs and receipts come straight from the node; numbers are hex quantities. A node that cannot
serve a block answers null or with a code of its own.
-/

namespace ChainFeed.Evm

universe u

open Rpc (Request Response Transport)
open Family

def blockUnavailable : Int64 := 6969

structure RawLog where
  address : String
  topics : List String
  data : String
  blockNumber : String
  blockHash : Option String
  transactionHash : String
  transactionIndex : String
  logIndex : String
  removed : Bool

namespace RawLog

def ofJson? (j : Json) : Option RawLog := do
  let r ← j.record? ["address", "topics", "data", "blockNumber", "blockHash", "transactionHash",
    "transactionIndex", "logIndex", "removed"]
  return {
    address := ← r.required "address" Json.text?
    topics := ← r.required "topics" (Json.list? Json.text?)
    data := ← r.required "data" Json.text?
    blockNumber := ← r.required "blockNumber" Json.text?
    blockHash := ← r.nullable "blockHash" Json.text?
    transactionHash := ← r.required "transactionHash" Json.text?
    transactionIndex := ← r.required "transactionIndex" Json.text?
    logIndex := ← r.required "logIndex" Json.text?
    removed := ← r.defaulted "removed" false Json.bool? }

def normalize (l : RawLog) (chainId : UInt64) : Except RepositoryError Log := do
  let blockNumber ← quantity "log.blockNumber" l.blockNumber
  let transactionIndex ← quantity "log.transactionIndex" l.transactionIndex
  let logIndex ← quantity "log.logIndex" l.logIndex
  return {
    address := l.address
    topics := l.topics
    data := l.data
    blockNumber
    blockHash := l.blockHash.getD ""
    transactionHash := l.transactionHash
    transactionIndex := toString transactionIndex
    logIndex
    removed := l.removed
    chainId }

end RawLog

structure RawBlock where
  number : Option String
  hash : Option String
  timestamp : Option String
  transactions : List Json

def RawBlock.ofJson? (j : Json) : Option RawBlock := do
  let r ← j.record? ["number", "hash", "timestamp", "transactions"]
  return {
    number := ← r.optional "number" Json.text?
    hash := ← r.optional "hash" Json.text?
    timestamp := ← r.optional "timestamp" Json.text?
    transactions := ← r.defaulted "transactions" [] (Json.list? Json.canonical?) }

structure RawTransaction where
  hash : String
  sender : String
  receiver : Option String
  input : String
  value : String
  transactionIndex : Option String

def RawTransaction.ofJson? (j : Json) : Option RawTransaction := do
  let r ← j.record? ["hash", "from", "to", "input", "value", "transactionIndex"]
  return {
    hash := ← r.required "hash" Json.text?
    sender := ← r.required "from" Json.text?
    receiver := ← r.optional "to" Json.text?
    input := ← r.defaulted "input" "" Json.text?
    value := ← r.defaulted "value" "" Json.text?
    transactionIndex := ← r.optional "transactionIndex" Json.text? }

structure RawReceipt where
  transactionHash : String
  blockNumber : String
  blockHash : String
  sender : String
  receiver : Option String
  status : Option String
  logs : List RawLog
  gasUsed : Option String

def RawReceipt.ofJson? (j : Json) : Option RawReceipt := do
  let r ← j.record? ["transactionHash", "blockNumber", "blockHash", "from", "to", "status", "logs",
    "gasUsed"]
  return {
    transactionHash := ← r.required "transactionHash" Json.text?
    blockNumber := ← r.required "blockNumber" Json.text?
    blockHash := ← r.required "blockHash" Json.text?
    sender := ← r.required "from" Json.text?
    receiver := ← r.optional "to" Json.text?
    status := ← r.optional "status" Json.text?
    logs := ← r.defaulted "logs" [] (Json.list? RawLog.ofJson?)
    gasUsed := ← r.optional "gasUsed" Json.text? }

def readTransaction (blockNumber : UInt64) (blockHash : String) (j : Json) :
    Except RepositoryError Transaction := do
  let raw ← readPart "transaction" RawTransaction.ofJson? j
  let transactionIndex ← match raw.transactionIndex with
    | some text => (quantity "transaction.transactionIndex" text).map toString
    | none => pure ""
  return {
    hash := raw.hash
    blockNumber
    blockHash
    sender := raw.sender
    receiver := raw.receiver
    input := raw.input
    value := raw.value
    transactionIndex }

/-- Reads a block; its transactions are read only when `full`. The time wraps into a signed word. -/
def readBlock (full : Bool) (j : Json) : Except RepositoryError Block := do
  let raw ← readPart "block" RawBlock.ofJson? j
  let number ← quantity "block.number" (← present "block" "number" raw.number)
  let subject := "block " ++ toString number
  let hash ← present subject "hash" (nonEmpty raw.hash)
  let timestamp ← quantity "block.timestamp" (← present subject "timestamp" raw.timestamp)
  let transactions ←
    if full then (raw.transactions.mapM (readTransaction number hash)).map some else pure none
  return { number, hash, timestamp := timestamp.toInt64, transactions }

def readStatus : Option String → TxStatus
  | some "0x1" => .success
  | some "0x0" => .reverted
  | _ => .unknown

def readReceipt (chainId : UInt64) (j : Json) : Except RepositoryError Receipt := do
  let raw ← readPart "receipt" RawReceipt.ofJson? j
  let gasUsed ← match raw.gasUsed with
    | some text => (quantity "receipt.gasUsed" text).map some
    | none => pure none
  let logs ← raw.logs.mapM (·.normalize chainId)
  let blockNumber ← quantity "receipt.blockNumber" raw.blockNumber
  return {
    transactionHash := raw.transactionHash
    blockNumber
    blockHash := raw.blockHash
    sender := raw.sender
    receiver := raw.receiver
    status := readStatus raw.status
    logs
    gasUsed }

def tagParam : BlockTag → Json
  | .number n => .str (Quantity.render n)
  | tag => .str tag.render

def blockMethod : String := "eth_getBlockByNumber"

def blockRequest (id : UInt64) (tag : BlockTag) (full : Bool) : Request :=
  .positional id blockMethod [tagParam tag, .bool full]

def dialect (full : Bool) : BlockDialect Block where
  method := blockMethod
  request n := blockRequest n (.number n) full
  isUnavailable e := e.code == blockUnavailable
  read _ j := readBlock full j

def logParams (f : LogFilter) : Json :=
  .object ([("fromBlock", .str (Quantity.render f.fromBlock)), ("toBlock", .str (Quantity.render f.toBlock))] ++
    (if f.addresses.isEmpty then [] else [("address", .strings f.addresses)]) ++
    (if f.topics.isEmpty then [] else [("topics", f.topicsJson)]))

def receiptLookup (chainId : UInt64) : Lookup TxRef Receipt where
  method := "eth_getTransactionReceipt"
  params ref := [.str ref.hash]
  read := readReceipt chainId

variable {m : Type → Type u} [Monad m] [Clock m]

def block (chains : Registry m) (chain : String) (tag : BlockTag) (full : Bool) :
    ExceptT RepositoryError m Block :=
  serving chains chain fun settings => do
    let value ← ask settings.transport (blockRequest 1 tag full)
    if value.isNull then throw (.protocol (.notFound ("block " ++ tag.render) chain))
    else having (readBlock full value)

def height (chains : Registry m) (chain : String) (tag : BlockTag) :
    ExceptT RepositoryError m UInt64 :=
  match tag with
  | .number n => throw (.invalidArgument ("height needs a finality tag, got block " ++ toString n))
  | tag => do return (← block chains chain tag false).number

def blocks (chains : Registry m) (chain : String) (numbers : BlockSet) (full : Bool) :
    ExceptT RepositoryError m BlockMap :=
  serving chains chain fun settings => do
    let found ← (dialect full).fetch settings.transport numbers
    let now ← (Clock.unixTime : m Int64)
    return .ofBlocks (found.map fun (n, b) => b.getD (.placeholder n now))

def logs (chains : Registry m) (chain : String) (filter : LogFilter) :
    ExceptT RepositoryError m (List Log) :=
  serving chains chain fun settings => do
    if filter.isEmptyRange then return []
    else
      let value ← ask settings.transport (.positional 1 "eth_getLogs" [logParams filter])
      let raw ← having (readPart "eth_getLogs result" (Json.list? RawLog.ofJson?) value)
      having (raw.mapM (·.normalize settings.chainId))

def receipts (chains : Registry m) (chain : String) (refs : TxRefSet) :
    ExceptT RepositoryError m ReceiptMap :=
  serving chains chain fun settings => do
    let found ← (receiptLookup settings.chainId).fetch settings.transport refs.toList
    return .ofList (found.map fun (ref, r) => (ref.hash, r))

def repository (chains : Registry m) : Repository m where
  height chain tag := (height chains chain tag).run
  blocks chain numbers full := (blocks chains chain numbers full).run
  block chain tag full := (block chains chain tag full).run
  logs chain filter := (logs chains chain filter).run
  receipts chain refs := (receipts chains chain refs).run

end ChainFeed.Evm
