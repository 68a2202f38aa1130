import ChainFeed.Chain.Repository
import ChainFeed.Json.Member

/-!
# Questions

The questions to a repository as data, and what is found out by asking them.
-/

namespace ChainFeed.Rehearsal

universe u

inductive Question where
  | height (chain : String) (tag : BlockTag)
  | blocks (chain : String) (numbers : List UInt64) (full : Bool)
  | block (chain : String) (tag : BlockTag) (full : Bool)
  | logs (chain : String) (filter : LogFilter)
  | receipts (chain : String) (refs : List TxRef)

inductive Finding where
  | height (n : UInt64)
  | blocks (found : BlockMap)
  | block (b : Block)
  | logs (found : List Log)
  | receipts (found : ReceiptMap)

namespace Finding

def tableJson {α : Type} (form : α → Json) (t : Table α) : Json := .obj (t.map fun (k, a) => (k, form a))

def toJson : Finding → Json
  | .height n => .word n
  | .blocks found => tableJson Block.toJson found
  | .block b => b.toJson
  | .logs found => .arr (found.map Log.toJson)
  | .receipts found => tableJson Receipt.toJson found

end Finding

namespace Question

def ask {m : Type → Type u} [Monad m] (repo : Repository m) :
    Question → m (Except RepositoryError Finding)
  | .height chain tag => do return (← repo.height chain tag).map .height
  | .blocks chain numbers full => do return (← repo.blocks chain (.ofList numbers) full).map .blocks
  | .block chain tag full => do return (← repo.block chain tag full).map .block
  | .logs chain filter => do return (← repo.logs chain filter).map .logs
  | .receipts chain refs => do return (← repo.receipts chain (.ofList refs)).map .receipts

def toJson : Question → Json
  | .height chain tag => .obj [("call", .str "height"), ("chain", .str chain), ("tag", tag.toJson)]
  | .blocks chain numbers full =>
    .obj [("call", .str "blocks"), ("chain", .str chain), ("numbers", .arr (numbers.map .word)),
      ("txs", .bool full)]
  | .block chain tag full =>
    .obj [("call", .str "block"), ("chain", .str chain), ("tag", tag.toJson), ("txs", .bool full)]
  | .logs chain filter => .obj [("call", .str "logs"), ("chain", .str chain), ("filter", filter.toJson)]
  | .receipts chain refs =>
    .obj [("call", .str "receipts"), ("chain", .str chain), ("refs", .arr (refs.map TxRef.toJson))]

def ofJson? (j : Json) : Option Question := do
  let chain ← j.textAt "chain"
  let full ← j.flagAt "txs"
  match ← j.textAt "call" with
  | "height" => return .height chain (← (j.get? "tag").bind BlockTag.ofJson?)
  | "blocks" => return .blocks chain (← j.wordsAt "numbers") full
  | "block" => return .block chain (← (j.get? "tag").bind BlockTag.ofJson?) full
  | "logs" => return .logs chain (← (j.get? "filter").bind LogFilter.ofJson?)
  | "receipts" => return .receipts chain (← j.itemsAt "refs" TxRef.ofJson?)
  | _ => none

end Question

end ChainFeed.Rehearsal
