import ChainFeed.Rehearsal.Stage

/-!
# Rehearsing a pool

A pool of scripted nodes whose providers are picked and marked by hand, between calls through it.
-/

namespace ChainFeed.Rehearsal

open Rpc

structure Providers where
  stage : Stage
  cooldown : Nat
  chain : String

namespace Providers

def ofNodes (chain : String) (nodes : List Node) (cooldown : Nat) : Providers :=
  let pools := [(chain, Pool.ofUrls (nodes.map (·.url)))]
  { stage := { world := { nodes, pools } }, cooldown, chain }

def pool (p : Providers) : Pool := (p.stage.world.pools.get? p.chain).getD (.ofUrls [])

def setPool (p : Providers) (pool : Pool) : Providers :=
  let world := p.stage.world
  { p with stage := { p.stage with world := { world with pools := world.pools.insert p.chain pool } } }

def transport (p : Providers) : Transport (Activity World) :=
  let members := p.stage.world.nodes.zipIdx.map fun (n, i) => World.transport i n
  Pool.transport (World.poolCell.entry p.chain (.ofUrls [])) members p.cooldown p.chain

def pick (p : Providers) : Option Nat × Providers :=
  let (i, pool) := p.pool.pick p.cooldown p.stage.now
  (i, p.setPool pool)

def mark (p : Providers) (healthy : Bool) (i : Nat) : Providers :=
  p.setPool (if healthy then p.pool.markOnline i else p.pool.markOffline p.stage.now i)

def send (p : Providers) (r : Request) : Option (Except TransportError Response) × Providers :=
  let (result, stage) := p.stage.perform (p.transport.send r)
  (result, { p with stage })

def batch (p : Providers) (rs : List Request) : Option (Except TransportError (List Response)) × Providers :=
  let (result, stage) := p.stage.perform (p.transport.batch rs)
  (result, { p with stage })

def advance (p : Providers) (ms : Nat) : Providers := { p with stage := p.stage.advance ms }

def summary (p : Providers) : List (String × Bool × Option Nat) :=
  p.pool.providers.map fun q => (q.url, q.healthy, q.failedAt.map (p.stage.now - ·))

end Providers

end ChainFeed.Rehearsal
