import ChainFeed.Family.Evm
import ChainFeed.Family.Near
import ChainFeed.Family.Solana
import ChainFeed.Rehearsal.World

/-!
# Setting the stage

A rehearsal begins with a repository of one family over scripted nodes, alone or in pools, with or
without a guard, or with a scripted repository.
-/

namespace ChainFeed.Rehearsal

open Rpc

inductive Cast where
  | evm
  | solana (paging : Solana.Paging)
  | near (scan : Near.Scan)
  | scripted (script : Script)

inductive Endpoint where
  | node (n : Node)
  | pool (nodes : List Node) (cooldown : Nat)

structure ChainSetup where
  name : String
  id : UInt64
  endpoint : Endpoint

structure Setup where
  cast : Cast
  chains : List ChainSetup := []
  guard : Option Resilience := none

structure Stage where
  now : Nat := 0
  world : World := {}

def addNodes (w : World) (nodes : List Node) : World × List (Transport (Activity World)) :=
  ({ w with nodes := w.nodes ++ nodes }, nodes.zipIdx.map fun (n, i) => World.transport (w.nodes.length + i) n)

def addEndpoint (w : World) (chain : String) : Endpoint → World × Transport (Activity World)
  | .node n => ({ w with nodes := w.nodes ++ [n] }, World.transport w.nodes.length n)
  | .pool nodes cooldown =>
    let (w, transports) := addNodes w nodes
    (w, Pool.transport (World.poolCell.entry chain (.ofUrls (nodes.map (·.url)))) transports cooldown chain)

def addChains : List ChainSetup → World → Registry (Activity World) → World × Registry (Activity World)
  | [], w, registry => (w, registry)
  | c :: cs, w, registry =>
    let (w, transport) := addEndpoint w c.name c.endpoint
    addChains cs w (registry.insert c.name ⟨c.id, transport⟩)

namespace Setup

def registry (s : Setup) : Registry (Activity World) := (addChains s.chains {} []).2

def chainNames (s : Setup) : List String := s.registry.names

def stage (s : Setup) : Stage :=
  let world := (addChains s.chains {} []).1
  match s.cast with
  | .scripted script => { world := { world with script } }
  | _ => { world }

def unguarded (s : Setup) : Repository (Activity World) :=
  match s.cast with
  | .evm => Evm.repository s.registry
  | .solana paging => Solana.repository s.registry paging
  | .near scan => Near.repository s.registry scan
  | .scripted _ => Script.repository

def repository (s : Setup) : Repository (Activity World) :=
  match s.guard with
  | some config => (World.guardPost config).repository s.unguarded
  | none => s.unguarded

end Setup

namespace Stage

def perform {α : Type} (s : Stage) (a : Act α) : Option α × Stage :=
  match a.runUntil none s.now s.world with
  | (.ended result at', world) => (some result, { s with now := at', world })
  | (.waiting _, world) => (none, { s with world })

/-- Something that from now on runs for at most `ms` milliseconds, or as long as it takes. -/
def within {α : Type} (s : Stage) (ms : Option Nat) (a : Act α) : Act (Option α) :=
  match ms with
  | some ms => a.upTo (s.now + ms)
  | none => some <$> a

def takeCalls (s : Stage) : List Call × Stage :=
  (s.world.calls.reverse, { s with world := { s.world with calls := [] } })

def advance (s : Stage) (ms : Nat) : Stage := { s with now := s.now + ms }

def changeScript (s : Stage) (f : Script → Script) : Stage :=
  { s with world := { s.world with script := f s.world.script } }

end Stage

abbrev Running (α : Type) := Nat × Activity.Suspended World α

/-- The call that is resumed next: the one that wakes first, of two the one that was started first. -/
def earliest {α : Type} (calls : List (Running α)) : Option (Running α) :=
  calls.foldl (fun best c =>
    match best with
    | none => some c
    | some b => if (c.2.wake.getD 0) < (b.2.wake.getD 0) then some c else some b) none

def startAll {α : Type} : List (Nat × Act α) → Nat → World → List (Nat × α) × List (Running α) × World
  | [], _, w => ([], [], w)
  | (i, a) :: rest, now, w =>
    match a.runUntil (some now) now w with
    | (.ended result _, w) =>
      let (ended, waiting, w) := startAll rest now w
      ((i, result) :: ended, waiting, w)
    | (.waiting x, w) =>
      let (ended, waiting, w) := startAll rest now w
      (ended, (i, x) :: waiting, w)

/-- Resumes waiting calls one by one until all have ended, in at most so many steps. -/
def finishAll {α : Type} :
    Nat → List (Nat × α) → List (Running α) → Nat → World → List (Nat × α) × Nat × World
  | 0, ended, _, now, w => (ended, now, w)
  | steps + 1, ended, waiting, now, w =>
    match earliest waiting with
    | none => (ended, now, w)
    | some (i, x) =>
      let wake := max now (x.wake.getD now)
      match x.resume (some wake) now w with
      | (.ended result _, w) =>
        finishAll steps ((i, result) :: ended) (waiting.filter (·.1 != i)) wake w
      | (.waiting y, w) =>
        finishAll steps ended (waiting.map fun c => if c.1 = i then (i, y) else c) wake w

def Stage.together {α : Type} (s : Stage) (calls : List (Act α)) : List α × Stage :=
  let (ended, waiting, world) := startAll (calls.zipIdx.map fun (a, i) => (i, a)) s.now s.world
  let (ended, now, world) := finishAll 1000000 ended waiting s.now world
  (calls.zipIdx.filterMap fun (_, i) => (ended.find? (·.1 == i)).map (·.2), { s with now, world })

end ChainFeed.Rehearsal
