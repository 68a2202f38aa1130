import ChainFeed.Json.Printer
import ChainFeed.Json.Reader
import ChainFeed.Json.Record
import ChainFeed.Timestamp

/-!
# Events on the queue

A message is a notification whose text is the JSON of a chain event. Decoding is the inverse of
wrapping: first the notification, then the event inside it.
-/

namespace ChainFeed

structure ChainEvent where
  id : String
  chainId : UInt64
  emitterAddress : String
  sequence : UInt64
  txHash : Option String := none
  timestamp : Option Timestamp := none
  /-- Passed through as it is. -/
  payload : Option String := none
  deriving DecidableEq, Repr

def optionalMember {α : Type} (name : String) (form : α → Json) : Option α → List (String × Json)
  | some a => [(name, form a)]
  | none => []

def Timestamp.toJson (t : Timestamp) : Json := .str t.render

def Timestamp.ofJson? (j : Json) : Option Timestamp := j.text?.bind Timestamp.read?

namespace ChainEvent

def toJson (e : ChainEvent) : Json :=
  .obj ([("id", .str e.id), ("chainId", .word e.chainId), ("emitterAddress", .str e.emitterAddress),
      ("sequence", .word e.sequence)] ++
    optionalMember "txHash" .str e.txHash ++
    optionalMember "timestamp" Timestamp.toJson e.timestamp ++
    optionalMember "payload" .str e.payload)

def ofJson? (j : Json) : Option ChainEvent := do
  let r ← j.record? ["id", "chainId", "emitterAddress", "sequence", "txHash", "timestamp", "payload"]
  return {
    id := ← r.required "id" Json.text?
    chainId := ← r.required "chainId" Json.word?
    emitterAddress := ← r.required "emitterAddress" Json.text?
    sequence := ← r.required "sequence" Json.word?
    txHash := ← r.nullable "txHash" Json.text?
    timestamp := ← r.nullable "timestamp" Timestamp.ofJson?
    payload := ← r.nullable "payload" Json.text? }

end ChainEvent

structure Envelope where
  kind : String := "Notification"
  messageId : String
  message : String
  timestamp : Option Timestamp := none
  deriving DecidableEq, Repr

namespace Envelope

def toJson (e : Envelope) : Json :=
  .obj ([("Type", .str e.kind), ("MessageId", .str e.messageId), ("Message", .str e.message)] ++
    optionalMember "Timestamp" Timestamp.toJson e.timestamp)

def ofJson? (j : Json) : Option Envelope := do
  let r ← j.record? ["Type", "MessageId", "Message", "Timestamp"]
  return {
    kind := ← r.required "Type" Json.text?
    messageId := ← r.required "MessageId" Json.text?
    message := ← r.required "Message" Json.text?
    timestamp := ← r.nullable "Timestamp" Timestamp.ofJson? }

def wrap (messageId : String) (event : ChainEvent) (now : Timestamp) : Envelope :=
  { messageId, message := event.toJson.render, timestamp := some now }

def event? (e : Envelope) : Option ChainEvent := (Json.read? e.message).bind ChainEvent.ofJson?

end Envelope

def decodeMessage? (body : String) : Option ChainEvent :=
  ((Json.read? body).bind Envelope.ofJson?).bind Envelope.event?

inductive Verdict where
  | accept
  /-- The message is deleted and not forwarded. -/
  | skip
  deriving DecidableEq, Repr

def acceptChains (ids : List UInt64) (chainId : UInt64) : Verdict :=
  if ids.contains chainId then .accept else .skip

end ChainFeed
