import ChainFeed.Config.Basic
import ChainFeed.Yaml.Reader

/-!
# Reading configurations

A configuration is YAML. Unknown fields are skipped, missing ones have defaults where there is one, and
a section may not be null.
-/

namespace ChainFeed

def Config.texts? : Yaml → Option (List String) := Yaml.list? Yaml.text?

def Config.choice? {α : Type} (ofName? : String → Option α) (y : Yaml) : Option α :=
  y.text?.bind ofName?

def Config.count? (y : Yaml) : Option Nat := y.word32?.map UInt32.toNat

def Config.millis? (y : Yaml) : Option Nat := y.word?.map UInt64.toNat

open Config

def LogSettings.ofYaml? (y : Yaml) : Option LogSettings := do
  let d : LogSettings := {}
  let r ← y.record?
  return {
    level := ← r.defaulted "level" d.level Yaml.text?
    components := ← r.defaulted "components" d.components (Yaml.table? Yaml.text?)
    json := ← r.defaulted "json" d.json Yaml.bool? }

def Resilience.ofRateLimit? (d : Resilience) (y : Yaml) : Option Resilience := do
  let r ← y.record?
  return { d with
    period := ← r.defaulted "period_ms" d.period millis?
    limit := ← r.defaulted "limit" d.limit count?
    interval := ← r.defaulted "interval_ms" d.interval Yaml.word?
    attempts := ← r.defaulted "attempts" d.attempts count? }

def Breaker.Config.ofYaml? (y : Yaml) : Option Breaker.Config := do
  let d : Breaker.Config := {}
  let r ← y.record?
  return {
    failureThreshold := ← r.defaulted "failure_threshold" d.failureThreshold count?
    openFor := ← r.defaulted "open_duration_ms" d.openFor millis?
    successThreshold := ← r.defaulted "success_threshold" d.successThreshold count? }

def ChainEntry.ofYaml? (y : Yaml) : Option ChainEntry := do
  let r ← y.record?
  let e : ChainEntry := {
    family := ← r.required "family" (choice? ChainFamily.ofName?)
    chainId := ← r.required "chain_id" Yaml.word?
    rpcs := ← r.required "rpcs" texts? }
  let limited ← r.defaulted "rate_limit" e.resilience e.resilience.ofRateLimit?
  return { e with
    requestTimeout := ← r.defaulted "request_timeout_ms" e.requestTimeout Yaml.word?
    retries := ← r.defaulted "retries" e.retries count?
    cooldown := ← r.defaulted "offline_cooldown_ms" e.cooldown millis?
    resilience := { limited with
      breaker := ← r.defaulted "circuit_breaker" limited.breaker Breaker.Config.ofYaml? } }

def BlockTag.finalityOfName? (s : String) : Option BlockTag :=
  [BlockTag.latest, .safe, .finalized].find? (·.render == s)

def PollerEntry.ofYaml? (y : Yaml) : Option PollerEntry := do
  let d : PollerConfig := {}
  let r ← y.record?
  return {
    kind := ← r.required "kind" (choice? PollerKind.ofName?)
    config := {
      id := ← r.required "id" Yaml.text?
      chain := ← r.required "chain" Yaml.text?
      finality := ← r.defaulted "finality" d.finality (choice? BlockTag.finalityOfName?)
      fromBlock := ← r.nullable "from_block" Yaml.word?
      toBlock := ← r.nullable "to_block" Yaml.word?
      batch := ← r.defaulted "block_batch_size" d.batch Yaml.word?
      interval := ← r.defaulted "interval_ms" d.interval millis? }
    addresses := ← r.defaulted "addresses" [] texts?
    topics := ← r.defaulted "topics" [] texts? }

namespace Config

def ofYaml? (y : Yaml) : Option Config := do
  let r ← y.record?
  return {
    log := ← r.defaulted "log" {} LogSettings.ofYaml?
    environment := ← r.nullable "environment" Yaml.text?
    chains := ← r.required "chains" (Yaml.table? ChainEntry.ofYaml?)
    pollers := ← r.defaulted "pollers" [] (Yaml.list? PollerEntry.ofYaml?) }

/-- Reads and checks a configuration. -/
def ofText (s : String) : Except ConfigError Config :=
  match (Yaml.read? s).bind ofYaml? with
  | none => .error .unreadable
  | some c =>
    match c.fault? with
    | some e => .error e
    | none => .ok c

end Config

end ChainFeed
