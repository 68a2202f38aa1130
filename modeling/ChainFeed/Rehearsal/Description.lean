import ChainFeed.Json.Member
import ChainFeed.Rehearsal.Polling
import ChainFeed.Rehearsal.Server

/-!
# Descriptions of rehearsals

The collaborators of a rehearsal and the things that happen in it are described in JSON. What a
description leaves out has a default.
-/

namespace ChainFeed.Rehearsal

open Rpc (TransportError NodeError Request Id)

def transportError? (j : Json) : Option TransportError := do
  match ← j.textAt "kind" with
  | "http" => return .http (← j.textAt "message")
  | "rpc" => return .rpc (← (j.get? "error").bind NodeError.ofJson?)
  | "rate_limited" => return .rateLimited (← j.textAt "provider")
  | "all_down" => return .allProvidersDown
  | "timeout" => return .timeout (← j.wordAt "ms")
  | "deserialization" => return .undecodable
  | "other" => return .other (← j.textAt "message")
  | _ => none

def repositoryError? (j : Json) : Option RepositoryError := do
  match ← j.textAt "kind" with
  | "protocol" => return .protocol (.other (← j.textAt "message"))
  | "unknown_chain" => return .unknownChain (← j.textAt "chain")
  | "circuit_open" => return .circuitOpen (← j.textAt "chain")
  | "chain_rate_limited" => return .rateLimited (← j.textAt "chain")
  | "invalid_argument" => return .invalidArgument (← j.textAt "message")
  | _ => return .transport (← transportError? j)

def pollError? (j : Json) : Option PollError := do
  match ← j.textAt "kind" with
  | "sink" => return .sink (← j.textAt "message")
  | _ => return .repository (← repositoryError? j)

def request? (j : Json) : Option Request := do
  return {
    id := ← (j.get? "id").bind Id.ofJson?
    method := ← j.textAt "method"
    params := ← j.get? "params" }

def rule? (j : Json) : Option Rule := do
  let reply : Reply ←
    if (← j.flagAt "silent") then pure .silent
    else match j.given? "fail", j.get? "response" with
      | some f, _ => (transportError? f).map .failure
      | none, some r => pure (.message r)
      | none, none =>
        let rest := ["result", "error"].filterMap fun k => (j.get? k).map (k, ·)
        pure (.members (j.get? "reply_id") rest)
  return {
    method := j.get? "method"
    params := j.get? "params"
    argument := j.get? "arg"
    before := j.get? "before"
    id := j.get? "id"
    times := ← j.optionalAt "times" Json.nat?
    reply }

def node? (j : Json) : Option Node := do
  return {
    url := ← j.defaultAt "url" "node" Json.text?
    rules := ← j.itemsAt "rules" rule?
    reversed := ← j.flagAt "reverse"
    sequential := ← j.flagAt "sequential" }

def beat? (j : Json) : Option Beat := do
  return { delay := ← j.defaultAt "delay_ms" 0 Json.nat?, error := ← j.optionalAt "error" repositoryError? }

def receiptMap? (j : Json) : Option ReceiptMap :=
  match j with
  | .obj ms => ms.mapM fun (k, r) => (Receipt.ofJson? r).map (k, ·)
  | _ => none

def script? (j : Json) : Option Script := do
  return {
    head := ← j.defaultAt "head" 0 Json.word?
    blocks := ← j.itemsAt "blocks" Block.ofJson?
    logs := ← j.itemsAt "logs" Log.ofJson?
    receipts := ← j.defaultAt "receipts" [] receiptMap?
    omitMissing := ← j.flagAt "omit_missing"
    beats := ← j.itemsAt "script" beat?
    always := ← j.optionalAt "always" beat? }

def breakerConfig? (j : Json) : Option Breaker.Config := do
  let d : Breaker.Config := {}
  return {
    failureThreshold := ← j.defaultAt "failure_threshold" d.failureThreshold Json.nat?
    openFor := ← j.defaultAt "open_ms" d.openFor Json.nat?
    successThreshold := ← j.defaultAt "success_threshold" d.successThreshold Json.nat? }

def resilience? (j : Json) : Option Resilience := do
  let d : Resilience := {}
  return {
    period := ← j.defaultAt "period_ms" d.period Json.nat?
    limit := ← j.defaultAt "limit" d.limit Json.nat?
    interval := ← j.defaultAt "interval_ms" d.interval Json.word?
    attempts := ← j.defaultAt "attempts" d.attempts Json.nat?
    breaker := ← breakerConfig? j }

/-- How long a pool skips a provider that failed, unless it is said. -/
def poolCooldown : Nat := 30000

def endpoint? (j : Json) : Option Endpoint := do
  match j.given? "pool" with
  | some p =>
    return .pool (← p.itemsAt "providers" node?) (← p.defaultAt "cooldown_ms" poolCooldown Json.nat?)
  | none => return .node (← j.defaultAt "node" {} node?)

def chainSetup? (j : Json) : Option ChainSetup := do
  return { name := ← j.textAt "name", id := ← j.wordAt "id", endpoint := ← endpoint? j }

def cast? (j : Json) : Option Cast := do
  match ← j.textAt "family" with
  | "evm" => return .evm
  | "solana" =>
    return match ← j.optionalAt "page_limit" Json.nat? with
      | some n => .solana { pageSize := n }
      | none => .solana {}
  | "near" =>
    return match ← j.optionalAt "block_batch" Json.word? with
      | some n => .near { batch := n }
      | none => .near {}
  | "fake" => return .scripted (← script? j)
  | _ => none

def setup? (j : Json) : Option Setup := do
  return {
    cast := ← cast? j
    chains := ← j.itemsAt "chains" chainSetup?
    guard := ← j.optionalAt "guard" resilience? }

def logsOptions? (j : Json) : Option LogsOptions := do
  return {
    addresses := ← j.textsAt "addresses"
    topics := ← j.textsAt "topics"
    chain := ← j.defaultAt "chain" "ethereum" Json.text?
    chainId := ← j.defaultAt "chain_id" 2 Json.word? }

def transactionsOptions? (j : Json) : Option TransactionsOptions := do
  return {
    addresses := ← j.textsAt "addresses"
    topics := ← j.textsAt "topics"
    chain := ← j.defaultAt "chain" "ethereum" Json.text?
    chainId := ← j.defaultAt "chain_id" 2 Json.word?
    environment := ← j.optionalAt "environment" Json.text? }

def options (j : Json) : Json := (j.get? "options").getD (.obj [])

def pollerConfig? (j : Json) : Option PollerConfig := do
  let d : PollerConfig := {}
  return {
    id := ← j.defaultAt "id" d.id Json.text?
    chain := ← j.defaultAt "chain" d.chain Json.text?
    finality := ← j.defaultAt "finality" d.finality BlockTag.ofJson?
    fromBlock := ← j.optionalAt "from_block" Json.word?
    toBlock := ← j.optionalAt "to_block" Json.word?
    batch := ← j.defaultAt "block_batch_size" d.batch Json.word?
    interval := ← j.defaultAt "interval_ms" d.interval Json.nat? }

def source? (j : Json) : Option Source := do
  match ← j.defaultAt "kind" "logs" Json.text? with
  | "logs" => return .logs (← logsOptions? (options j))
  | "transactions" => return .transactions (← transactionsOptions? (options j))
  | _ => none

def happenings? (j : Json) : Option (List Happening) := do
  let head ← j.optionalAt "head" Json.word?
  let always ← match j.get? "always" with
    | some v => (v.orNull? beat?).map some
    | none => pure none
  let sink ← match j.get? "sink_fail" with
    | some v => (v.orNull? Json.text?).map some
    | none => pure none
  let stop ← j.optionalAt "stop" Json.bool?
  let drop ← j.flagAt "drop"
  return (head.map .head).toList ++ (always.map .always).toList ++ (sink.map .sinkFault).toList ++
    (stop.map .send).toList ++ (if drop then [.hangUp] else [])

def content : Json → String
  | .str s => s
  | j => j.render

def serverReply? (j : Json) : Option ServerReply := do
  return {
    status := ← j.natAt "status"
    body := content ((j.get? "body").getD (.str ""))
    delay := ← j.defaultAt "delay_ms" 0 Json.nat? }

end ChainFeed.Rehearsal
