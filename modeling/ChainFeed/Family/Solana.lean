import ChainFeed.Family.Exchange

/-!
# The Solana family

Block numbers are slots. There is no log query: the history of each address is paged through, newest
first, and every transaction in range yields one log, whose topics are the instruction names that it
announced. The receiver of a transaction is the program of its first instruction that does not set
fees.
-/

namespace ChainFeed.Solana

universe u

open Rpc (Request Response Transport)
open Family

def skippedSlots : List Int64 := [-32004, -32007, -32009]

def computeBudget : String := "ComputeBudget111111111111111111111111111111"

def instructionMark : String := "Program log: Instruction: "

def instructionNames (messages : List String) : List String :=
  (messages.filterMap (Text.afterStart? instructionMark)).map Text.trim

structure Instruction where
  /-- The place of the program among the accounts. -/
  program : UInt64
  data : String

def Instruction.ofJson? (j : Json) : Option Instruction := do
  let r ← j.record? ["programIdIndex", "data"]
  return {
    program := ← r.required "programIdIndex" Json.word?
    data := ← r.defaulted "data" "" Json.text? }

structure Message where
  accounts : List String
  instructions : List Instruction

def Message.ofJson? (j : Json) : Option Message := do
  let r ← j.record? ["accountKeys", "instructions"]
  return {
    accounts := ← r.required "accountKeys" (Json.list? Json.text?)
    instructions := ← r.defaulted "instructions" [] (Json.list? Instruction.ofJson?) }

structure Body where
  signatures : List String
  message : Message

namespace Body

def ofJson? (j : Json) : Option Body := do
  let r ← j.record? ["signatures", "message"]
  return {
    signatures := ← r.required "signatures" (Json.list? Json.text?)
    message := ← r.required "message" Message.ofJson? }

def signature (b : Body) : Except RepositoryError String :=
  present "transaction" "signature" b.signatures.head?

def feePayer (b : Body) : Except RepositoryError String :=
  present "transaction" "account keys" b.message.accounts.head?

def programOf (b : Body) (i : Instruction) : Option String := b.message.accounts[i.program.toNat]?

/-- The first instruction that does not set fees, or the first one. -/
def mainInstruction (b : Body) : Option Instruction :=
  (b.message.instructions.find? fun i => b.programOf i != some computeBudget).or
    b.message.instructions.head?

def program (b : Body) : Option String := b.mainInstruction.bind b.programOf

end Body

structure Meta where
  error : Option Json
  fee : Option UInt64
  messages : Option (List String)

namespace Meta

def ofJson? (j : Json) : Option Meta := do
  let r ← j.record? ["err", "fee", "logMessages"]
  return {
    error := ← r.nullable "err" Json.canonical?
    fee := ← r.nullable "fee" Json.word?
    messages := ← r.nullable "logMessages" (Json.list? Json.text?) }

def hasFailed (m : Option Meta) : Bool := m.any (·.error.isSome)

def status : Option Meta → TxStatus
  | none => .unknown
  | some m => if m.error.isSome then .reverted else .success

end Meta

structure Entry where
  details : Option Meta
  body : Body

def Entry.ofJson? (j : Json) : Option Entry := do
  let r ← j.record? ["meta", "transaction"]
  return {
    details := ← r.optional "meta" Meta.ofJson?
    body := ← r.required "transaction" Body.ofJson? }

structure RawBlock where
  hash : Option String
  time : Option Int64
  transactions : List Entry

def RawBlock.ofJson? (j : Json) : Option RawBlock := do
  let r ← j.record? ["blockhash", "blockTime", "transactions"]
  return {
    hash := ← r.optional "blockhash" Json.text?
    time := ← r.optional "blockTime" Json.signed?
    transactions := ← r.defaulted "transactions" [] (Json.list? Entry.ofJson?) }

structure RawTransaction where
  slot : UInt64
  details : Option Meta
  body : Body

def RawTransaction.ofJson? (j : Json) : Option RawTransaction := do
  let r ← j.record? ["slot", "meta", "transaction"]
  return {
    slot := ← r.required "slot" Json.word?
    details := ← r.optional "meta" Meta.ofJson?
    body := ← r.required "transaction" Body.ofJson? }

structure Signature where
  signature : String
  slot : UInt64
  failed : Bool
  deriving DecidableEq, Repr

def Signature.ofJson? (j : Json) : Option Signature := do
  let r ← j.record? ["signature", "slot", "err"]
  return {
    signature := ← r.required "signature" Json.text?
    slot := ← r.required "slot" Json.word?
    failed := (← r.nullable "err" Json.canonical?).isSome }

def transactionOf (slot : UInt64) (blockHash : String) (e : Entry) (index : Nat) :
    Except RepositoryError Transaction := do
  let hash ← e.body.signature
  let sender ← e.body.feePayer
  return {
    hash
    blockNumber := slot
    blockHash
    sender
    receiver := e.body.program
    input := (e.body.mainInstruction.map (·.data)).getD ""
    transactionIndex := toString index
    status := some (Meta.status e.details) }

def readBlock (full : Bool) (slot : UInt64) (j : Json) : Except RepositoryError Block := do
  let raw ← readPart "block" RawBlock.ofJson? j
  let subject := "slot " ++ toString slot
  let hash ← present subject "blockhash" (nonEmpty raw.hash)
  let timestamp ← present subject "blockTime" raw.time
  let transactions ←
    if full then (raw.transactions.zipIdx.mapM fun (e, i) => transactionOf slot hash e i).map some
    else pure none
  return { number := slot, hash, timestamp, transactions }

/-- The one log of a transaction, emitted at `address`. -/
def logOf (tx : RawTransaction) (address : String) (chainId : UInt64) : Except RepositoryError Log := do
  let hash ← tx.body.signature
  return {
    address
    topics := instructionNames ((tx.details.bind (·.messages)).getD [])
    data := ""
    blockNumber := tx.slot
    blockHash := ""
    transactionHash := hash
    transactionIndex := "0"
    logIndex := 0
    removed := false
    chainId }

def receiptOf (signature : String) (tx : RawTransaction) (chainId : UInt64) :
    Except RepositoryError Receipt := do
  let program := tx.body.program
  let log ← logOf tx (program.getD "") chainId
  let sender ← tx.body.feePayer
  return {
    transactionHash := signature
    blockNumber := tx.slot
    blockHash := ""
    sender
    receiver := program
    status := Meta.status tx.details
    logs := [log]
    gasUsed := tx.details.bind (·.fee) }

/-- How settled a slot has to be. -/
def commitment : BlockTag → String
  | .finalized => "finalized"
  | .safe => "confirmed"
  | .latest | .number _ => "processed"

def blockMethod : String := "getBlock"

def blockRequest (full : Bool) (slot : UInt64) : Request :=
  .positional slot blockMethod [.word slot,
    .object [("encoding", .str "json"), ("transactionDetails", .str (if full then "full" else "none")),
      ("rewards", .bool false), ("maxSupportedTransactionVersion", .int 0)]]

def dialect (full : Bool) : BlockDialect Block where
  method := blockMethod
  request := blockRequest full
  isUnavailable e := skippedSlots.contains e.code
  read := readBlock full

def transactionLookup : Lookup String RawTransaction where
  method := "getTransaction"
  params signature := [.str signature,
    .object [("encoding", .str "json"), ("maxSupportedTransactionVersion", .int 0)]]
  read := readPart "transaction" RawTransaction.ofJson?

structure Paging where
  /-- Entries of a page; none count as one. -/
  pageSize : Nat := 1000
  /-- Pages after which a history is given up. -/
  pageBudget : Nat := 0x100000000

def Paging.limit (p : Paging) : Nat := max p.pageSize 1

/-- The entries of a page that are in range and did not fail, up to the first one before the range;
also whether there was one. -/
def inRange (filter : LogFilter) : List Signature → List Signature × Bool
  | [] => ([], false)
  | s :: rest =>
    if s.slot < filter.fromBlock then ([], true)
    else
      let (kept, passed) := inRange filter rest
      if filter.toBlock < s.slot || s.failed then (kept, passed) else (s :: kept, passed)

def pageRequest (limit page : Nat) (address : String) (before : Option String) : Request :=
  .positional (UInt64.ofNat page) "getSignaturesForAddress" [.str address,
    .object ([("limit", .nat limit), ("commitment", .str "finalized")] ++
      (before.map fun s => ("before", Json.str s)).toList)]

variable {m : Type → Type u} [Monad m]

/-- The history of `address` in range, newest first, from page number `page` on. It ends with a page
that is not full or that reaches back before the range. -/
def historyFrom (t : Transport m) (limit : Nat) (address : String) (filter : LogFilter) :
    Nat → Nat → Option String → ExceptT RepositoryError m (List Signature)
  | 0, _, _ => throw (.endlessHistory address)
  | budget + 1, page, before => do
    let value ← ask t (pageRequest limit page address before)
    let entries ← having (readPart "signature page" (Json.list? Signature.ofJson?) value)
    let (kept, passed) := inRange filter entries
    if passed || entries.length < limit then return kept
    else
      let older ← historyFrom t limit address filter budget (page + 1)
        (entries.getLast?.map (·.signature))
      return kept ++ older

def history (t : Transport m) (paging : Paging) (address : String) (filter : LogFilter) :
    ExceptT RepositoryError m (List Signature) :=
  historyFrom t paging.limit address filter paging.pageBudget 1 none

def logsOf (address : String) (chainId : UInt64) (topics : List String)
    (transactions : Table RawTransaction) : List String → Except RepositoryError (List Log)
  | [] => .ok []
  | s :: rest =>
    match transactions.get? s with
    | none => logsOf address chainId topics transactions rest
    | some tx =>
      if Meta.hasFailed tx.details then logsOf address chainId topics transactions rest
      else
        match logOf tx address chainId with
        | .error e => .error e
        | .ok log =>
          (logsOf address chainId topics transactions rest).map fun logs =>
            if topics.isEmpty || log.hasAnyTopic topics then log :: logs else logs

def logsAt (settings : ChainSettings m) (paging : Paging) (filter : LogFilter) :
    List String → ExceptT RepositoryError m (List Log)
  | [] => pure []
  | address :: rest => do
    let signatures := (← history settings.transport paging address filter).map (·.signature)
    let found ← transactionLookup.fetch settings.transport signatures
    let logs ← having (logsOf address settings.chainId filter.flatTopics (Table.ofList found) signatures)
    return logs ++ (← logsAt settings paging filter rest)

def height (chains : Registry m) (chain : String) (tag : BlockTag) :
    ExceptT RepositoryError m UInt64 :=
  serving chains chain fun settings =>
    match tag with
    | .number n => throw (.invalidArgument ("height needs a commitment tag, got slot " ++ toString n))
    | tag => do
      let value ← ask settings.transport
        (.positional 1 "getSlot" [.object [("commitment", .str (commitment tag))]])
      match value.word? with
      | some n => return n
      | none => throw (.protocol (.badSlot value))

def slotOf (chains : Registry m) (chain : String) : BlockTag → ExceptT RepositoryError m UInt64
  | .number n => pure n
  | tag => height chains chain tag

def block (chains : Registry m) (chain : String) (tag : BlockTag) (full : Bool) :
    ExceptT RepositoryError m Block := do
  let slot ← slotOf chains chain tag
  serving chains chain fun settings => do
    let value ← ask settings.transport (blockRequest full slot)
    if value.isNull then throw (.protocol (.notFound ("slot " ++ toString slot) chain))
    else having (readBlock full slot value)

def blocks [Clock m] (chains : Registry m) (chain : String) (numbers : BlockSet) (full : Bool) :
    ExceptT RepositoryError m BlockMap :=
  serving chains chain fun settings => do
    let found ← (dialect full).fetch settings.transport numbers
    let now ← (Clock.unixTime : m Int64)
    return .ofBlocks (found.map fun (n, b) => b.getD (.placeholder n now))

def logs (chains : Registry m) (paging : Paging) (chain : String) (filter : LogFilter) :
    ExceptT RepositoryError m (List Log) :=
  serving chains chain fun settings =>
    if filter.isEmptyRange then return []
    else if filter.addresses.isEmpty then
      throw (.invalidArgument "solana log queries need at least one address")
    else logsAt settings paging filter filter.addresses

def receipts (chains : Registry m) (chain : String) (refs : TxRefSet) :
    ExceptT RepositoryError m ReceiptMap :=
  serving chains chain fun settings => do
    let found ← transactionLookup.fetch settings.transport (refs.toList.map (·.hash))
    having ((Table.ofList found).mapM fun (signature, tx) =>
      (receiptOf signature tx settings.chainId).map (signature, ·))

def repository [Clock m] (chains : Registry m) (paging : Paging) : Repository m where
  height chain tag := (height chains chain tag).run
  blocks chain numbers full := (blocks chains chain numbers full).run
  block chain tag full := (block chains chain tag full).run
  logs chain filter := (logs chains paging chain filter).run
  receipts chain refs := (receipts chains chain refs).run

end ChainFeed.Solana
