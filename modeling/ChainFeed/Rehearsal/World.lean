import ChainFeed.Activity
import ChainFeed.Chain.Guard
import ChainFeed.Feed.Source
import ChainFeed.Rehearsal.Node
import ChainFeed.Rehearsal.Question
import ChainFeed.Rpc.Pool

/-!
# The world of a rehearsal

A rehearsal runs the feed against scripted collaborators on a clock of its own, which starts at
midnight of the first of January 2024. The world holds the state of everything that takes part and a
record of the calls that were made.
-/

namespace ChainFeed.Rehearsal

open Rpc

/-- The seconds since 1970 at the start of a rehearsal. -/
def epoch : Int := 1704067200

def wallAt (now : Nat) : Timestamp := .ofUnix (epoch + now / 1000) (now % 1000 * 1000000)

instance {σ : Type} : Clock (Activity σ) where
  now := Activity.update fun now s => (now, s)
  sleep ms := if ms = 0 then pure () else .wait (some ms) (fun _ => false) (pure ())
  wall := Activity.update fun now s => (wallAt now, s)
  unixTime := Activity.update fun now s => (Int64.ofInt (epoch + now / 1000), s)

inductive Call where
  | sent (url : String) (request : Request)
  | sentBatch (url : String) (requests : List Request)
  | asked (question : Question)

structure Beat where
  delay : Nat := 0
  error : Option RepositoryError := none

structure Script where
  head : UInt64 := 0
  blocks : List Block := []
  logs : List Log := []
  receipts : ReceiptMap := []
  /-- Whether blocks that it does not know are left out. -/
  omitMissing : Bool := false
  beats : List Beat := []
  /-- What it does at every call after those. -/
  always : Option Beat := none

/-- A channel that tells a loop to end; whatever is sent, and losing the sender, ends it. -/
structure Signal where
  value : Bool := false
  /-- Whether anything was sent, or the sender is gone. -/
  changed : Bool := false

structure World where
  nodes : List Node := []
  pools : Table Pool := []
  guards : Guards := []
  counters : Counters := []
  script : Script := {}
  calls : List Call := []
  signal : Signal := {}
  /-- What the sink fails with, if it fails. -/
  sinkFault : Option String := none
  /-- What the sink accepted: from whom, when and what; the latest first. -/
  published : List (String × Nat × List Emitted) := []

abbrev Act (α : Type) := Activity World α

namespace World

def record (w : World) (c : Call) : World := { w with calls := c :: w.calls }

def guardCell : Shared (Activity World) Guards := Activity.shared (·.guards) fun gs w => { w with guards := gs }

def poolCell : Shared (Activity World) (Table Pool) := Activity.shared (·.pools) fun ps w => { w with pools := ps }

def count (m : Metric) : Act PUnit :=
  Activity.update fun _ w => ((), { w with counters := w.counters.record m })

def guardPost (config : Resilience) : GuardPost (Activity World) := { config, guards := guardCell, count }

def useNode {α : Type} (i : Nat) (call : String → Call) (use : Node → α × Node) : Act α :=
  Activity.update fun _ w =>
    let node := w.nodes[i]?.getD {}
    let (a, node) := use node
    (a, { w.record (call node.url) with nodes := w.nodes.set i node })

def transport (i : Nat) (node : Node) : Transport (Activity World) :=
  let send (r : Request) := useNode i (Call.sent · r) (·.send r)
  { url := node.url
    send
    batch rs :=
      if node.sequential then sequentially send rs else useNode i (Call.sentBatch · rs) (·.batch rs)
    health := pure .unknown }

def publish (poller : String) (items : List Emitted) : Act (Except PollError PUnit) :=
  Activity.update fun now w =>
    match w.sinkFault with
    | some m => (.error (.sink m), w)
    | none => (.ok (), { w with published := (poller, now, items) :: w.published })

end World

namespace Script

def next (s : Script) : Option Beat × Script :=
  match s.beats with
  | b :: rest => (some b, { s with beats := rest })
  | [] => (s.always, s)

def find? (s : Script) (n : UInt64) : Option Block := s.blocks.reverse.find? (·.number == n)

def blocksFor (s : Script) (now : Int64) (numbers : List UInt64) : BlockMap :=
  .ofBlocks (numbers.filterMap fun n =>
    (s.find? n).or (if s.omitMissing then none else some (.placeholder n now)))

def call {α : Type} (q : Question) (answer : Script → Int64 → Except RepositoryError α) :
    Act (Except RepositoryError α) := do
  let beat ← Activity.update fun _ (w : World) =>
    let (beat, script) := w.script.next
    (beat, { w.record (.asked q) with script })
  let beat := beat.getD {}
  Clock.sleep beat.delay
  match beat.error with
  | some e => return .error e
  | none => Activity.update fun now w => (answer w.script (Int64.ofInt (epoch + now / 1000)), w)

def repository : Repository (Activity World) where
  height chain tag := call (.height chain tag) fun s _ => .ok s.head
  blocks chain numbers full :=
    call (.blocks chain numbers.toList full) fun s now => .ok (s.blocksFor now numbers.toList)
  block chain tag full :=
    call (.block chain tag full) fun s _ =>
      match tag with
      | .number n =>
        match s.find? n with
        | some b => .ok b
        | none => .error (.protocol (.other "no such block"))
      | _ => .error (.invalidArgument "tag")
  logs chain filter := call (.logs chain filter) fun s _ => .ok s.logs
  receipts chain refs :=
    call (.receipts chain refs.toList) fun s _ =>
      .ok (.ofList (refs.toList.filterMap fun ref => (s.receipts.get? ref.hash).map (ref.hash, ·)))

end Script

end ChainFeed.Rehearsal
