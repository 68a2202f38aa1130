import ChainFeed.Json.Record
import ChainFeed.Text.Letters
import ChainFeed.Text.Numeral

/-!
# Block tags and log filters

A tag selects one block, a filter selects the logs of a range of blocks.
-/

namespace ChainFeed

inductive BlockTag where
  | number (n : UInt64)
  | latest
  | safe
  | finalized
  deriving DecidableEq, Repr

namespace BlockTag

def render : BlockTag → String
  | .number n => toString n
  | .latest => "latest"
  | .safe => "safe"
  | .finalized => "finalized"

def toJson : BlockTag → Json
  | .number n => .obj [("number", .word n)]
  | tag => .str tag.render

def ofJson? : Json → Option BlockTag
  | .obj [("number", j)] => j.word?.map .number
  | j => j.variant?.bind fun s => [latest, safe, finalized].find? (·.render == s)

end BlockTag

inductive TopicFilter where
  | single (topic : String)
  | anyOf (topics : List String)
  deriving DecidableEq, Repr

namespace TopicFilter

def topics : TopicFilter → List String
  | .single t => [t]
  | .anyOf ts => ts

def toJson : TopicFilter → Json
  | .single t => .str t
  | .anyOf ts => .strings ts

def ofJson? : Json → Option TopicFilter
  | .str s => some (.single s)
  | j => (j.list? Json.text?).map .anyOf

end TopicFilter

structure LogFilter where
  /-- Who may emit; nobody listed means everybody. -/
  addresses : List String := []
  /-- What each topic position admits; a missing one admits everything. -/
  topics : List (Option TopicFilter) := []
  fromBlock : UInt64
  toBlock : UInt64
  deriving DecidableEq, Repr

namespace LogFilter

def addAddress (f : LogFilter) (address : String) : LogFilter :=
  { f with addresses := f.addresses ++ [address] }

/-- Adds a position that admits any of `alternatives`, or everything when there are none. -/
def addTopic (f : LogFilter) (alternatives : List String) : LogFilter :=
  let position : Option TopicFilter := match alternatives with
    | [] => none
    | [t] => some (.single t)
    | ts => some (.anyOf ts)
  { f with topics := f.topics ++ [position] }

def isEmptyRange (f : LogFilter) : Bool := f.toBlock < f.fromBlock

def containsBlock (f : LogFilter) (n : UInt64) : Bool := f.fromBlock ≤ n && n ≤ f.toBlock

def flatTopics (f : LogFilter) : List String :=
  f.topics.flatMap fun position => (position.map TopicFilter.topics).getD []

def matchesAddress (f : LogFilter) (address : String) : Bool :=
  f.addresses.isEmpty || f.addresses.any (Text.sameLetters · address)

def topicsJson (f : LogFilter) : Json :=
  .arr (f.topics.map fun position => (position.map TopicFilter.toJson).getD .null)

def toJson (f : LogFilter) : Json :=
  .obj [("addresses", .strings f.addresses), ("topics", f.topicsJson),
    ("fromBlock", .word f.fromBlock), ("toBlock", .word f.toBlock)]

def ofJson? (j : Json) : Option LogFilter := do
  let r ← j.record? ["addresses", "topics", "fromBlock", "toBlock"]
  return {
    addresses := ← r.required "addresses" (Json.list? Json.text?)
    topics := ← r.required "topics" (Json.list? (·.orNull? TopicFilter.ofJson?))
    fromBlock := ← r.required "fromBlock" Json.word?
    toBlock := ← r.required "toBlock" Json.word? }

end LogFilter

end ChainFeed
