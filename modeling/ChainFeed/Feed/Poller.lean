import ChainFeed.Clock
import ChainFeed.Feed.Range
import ChainFeed.Metrics

/-!
# Pollers

A poller walks a cursor over a chain. Each cycle finds out how far the chain has come, fetches the
next range up to there and hands its records to a sink; the cursor moves only when the sink has
accepted them. The loop rests when it has caught up or a cycle failed, ends after the last block, and
ends when it is told to, dropping a cycle under way.
-/

namespace ChainFeed

universe u

structure PollerConfig where
  id : String := "default"
  chain : String := "ethereum"
  /-- How settled the head has to be. -/
  finality : BlockTag := .finalized
  /-- The first block; without one the poller starts at the head that it sees first. -/
  fromBlock : Option UInt64 := none
  /-- The last block; without one the poller goes on for ever. -/
  toBlock : Option UInt64 := none
  /-- The most blocks of one cycle; none count as one. -/
  batch : UInt64 := 100
  interval : Nat := 5000

inductive Cycle where
  /-- A range was fetched; `caughtUp` when nothing was left to fetch. -/
  | progress (range : BlockRange) (items : Nat) (caughtUp : Bool)
  | idle
  | finished
  deriving DecidableEq, Repr

namespace PollerConfig

/-- The last block fetched before the first cycle. -/
def start (c : PollerConfig) : Option UInt64 :=
  match c.fromBlock with
  | some b => if b = 0 then none else some (b - 1)
  | none => none

def isDone (c : PollerConfig) (cursor : Option UInt64) : Bool :=
  match c.toBlock, cursor with
  | some last, some block => last ≤ block
  | _, _ => false

/-- The last block that may be fetched when the chain has come to `head`. -/
def target (c : PollerConfig) (head : UInt64) : UInt64 :=
  match c.toBlock with
  | some last => if last ≤ head then last else head
  | none => head

/-- The first block that has not been fetched. -/
def nextBlock (c : PollerConfig) (cursor : Option UInt64) (head : UInt64) : UInt64 :=
  match cursor with
  | some block => block + 1
  | none => c.fromBlock.getD head

def rangeEnd (c : PollerConfig) (first target : UInt64) : UInt64 :=
  let steps := max c.batch.toNat 1 - 1
  UInt64.ofNat (min (first.toNat + steps) target.toNat)

def nextRange (c : PollerConfig) (cursor : Option UInt64) (head : UInt64) : Option BlockRange :=
  let first := c.nextBlock cursor head
  let target := c.target head
  if target < first then none else some ⟨first, c.rangeEnd first target⟩

end PollerConfig

structure Poller (m : Type → Type u) (ι : Type) where
  config : PollerConfig
  height : String → BlockTag → m (Except RepositoryError UInt64)
  fetch : BlockRange → m (Except PollError (List ι))
  publish : String → List ι → m (Except PollError PUnit)
  count : Metric → m PUnit

namespace Poller

variable {m : Type → Type u} [Monad m] {ι : Type}

def advance (p : Poller m ι) (r : BlockRange) (target : UInt64) (cursor : Option UInt64) :
    m (Except PollError Cycle × Option UInt64) := do
  match ← p.fetch r with
  | .error e => return (.error e, cursor)
  | .ok items =>
    let count := items.length
    match ← p.publish p.config.id items with
    | .error e => return (.error e, cursor)
    | .ok _ =>
      p.count (.cycle p.config.id count)
      return (.ok (.progress r count (target ≤ r.last)), some r.last)

/-- One cycle from the last block fetched; also the last block fetched after it. -/
def cycle (p : Poller m ι) (cursor : Option UInt64) : m (Except PollError Cycle × Option UInt64) := do
  if p.config.isDone cursor then return (.ok .finished, cursor)
  else
    match ← p.height p.config.chain p.config.finality with
    | .error e => return (.error (.repository e), cursor)
    | .ok head =>
      match p.config.nextRange cursor head with
      | none => return (.ok .idle, cursor)
      | some r => p.advance r (p.config.target head) cursor

inductive Next where
  | stop
  | rest
  | again
  deriving DecidableEq, Repr

def Next.after : Except PollError Cycle → Next
  | .ok .finished => .stop
  | .ok (.progress _ _ false) => .again
  | _ => .rest

/-- How the loop learns that it shall end. -/
structure Shutdown (m : Type → Type u) where
  requested : m Bool
  /-- Does something unless it is told so meanwhile. -/
  during : {α : Type} → m α → m (Option α)

inductive Ending where
  /-- The last block has been fetched. -/
  | finished
  | stopped
  | unfinished
  deriving DecidableEq, Repr

def run [Clock m] (p : Poller m ι) (shutdown : Shutdown m) : Nat → Option UInt64 → m Ending
  | 0, _ => return .unfinished
  | fuel + 1, cursor => do
    if ← shutdown.requested then return .stopped
    match ← shutdown.during (p.cycle cursor) with
    | none => return .stopped
    | some (outcome, cursor) =>
      match Next.after outcome with
      | .stop => return .finished
      | .again => run p shutdown fuel cursor
      | .rest =>
        match ← shutdown.during (Clock.sleep p.config.interval) with
        | none => return .stopped
        | some _ => run p shutdown fuel cursor

end Poller

end ChainFeed
