import ChainFeed.Clock
import ChainFeed.Rpc.Transport

/-!
# Provider pools

A pool spreads the calls of a chain over several providers in turn. A provider that fails is skipped
until its cool-down is over; when every provider is being skipped, the one that failed longest ago is
used. So a pool with providers never refuses a call.
-/

namespace ChainFeed.Rpc

universe u

structure Provider where
  url : String
  healthy : Bool := true
  /-- In milliseconds. -/
  failedAt : Option Nat := none
  deriving DecidableEq, Repr

namespace Provider

def isEligible (p : Provider) (cooldown now : Nat) : Bool :=
  p.healthy || match p.failedAt with
    | some t => t + cooldown ≤ now
    | none => true

def failedBefore (p q : Provider) : Bool :=
  match p.failedAt, q.failedAt with
  | none, some _ => true
  | some s, some t => s < t
  | _, none => false

end Provider

structure Pool where
  providers : List Provider
  /-- Picks so far. -/
  cursor : Nat := 0
  deriving DecidableEq, Repr

namespace Pool

def ofUrls (urls : List String) : Pool := { providers := urls.map fun url => { url } }

def size (p : Pool) : Nat := p.providers.length

def turns (p : Pool) : List Nat :=
  (List.range p.size).map fun i => (p.cursor + i) % p.size

/-- The first of the providers that failed longest ago. -/
def longestFailed (ps : List Provider) : Nat :=
  (ps.zipIdx.foldl (fun (best : Option (Provider × Nat)) q =>
    match best with
    | some b => if q.1.failedBefore b.1 then some q else some b
    | none => some q) none).elim 0 (·.2)

def pick (p : Pool) (cooldown now : Nat) : Option Nat × Pool :=
  if p.providers.isEmpty then (none, p)
  else
    let eligible (i : Nat) : Bool := (p.providers[i]?).any (·.isEligible cooldown now)
    (some ((p.turns.find? eligible).getD (longestFailed p.providers)), { p with cursor := p.cursor + 1 })

def markOffline (p : Pool) (now i : Nat) : Pool :=
  { p with providers := p.providers.modify i fun q => { q with healthy := false, failedAt := some now } }

def markOnline (p : Pool) (i : Nat) : Pool :=
  { p with providers := p.providers.modify i fun q => { q with healthy := true } }

/-- Learns from the result of a call: only an error that a retry may mend speaks against the
provider. -/
def learn {α : Type} (p : Pool) (now i : Nat) : Except TransportError α → Pool
  | .ok _ => p.markOnline i
  | .error e => if e.isRetryable then p.markOffline now i else p

def health (p : Pool) : Health :=
  match (p.providers.filter (·.healthy)).length with
  | 0 => .unhealthy
  | n => if n = p.size then .healthy else .degraded

variable {m : Type → Type u} [Monad m] [Clock m]

def call {α : Type} (cell : Shared m Pool) (transports : List (Transport m)) (cooldown : Nat)
    (use : Transport m → m (Except TransportError α)) : m (Except TransportError α) := do
  let now ← Clock.now
  match ← cell.update (·.pick cooldown now) with
  | none => return .error .allProvidersDown
  | some i =>
    match transports[i]? with
    | none => return .error .allProvidersDown
    | some t =>
      let result ← use t
      let after ← Clock.now
      cell.modify (·.learn after i result)
      return result

def transport (cell : Shared m Pool) (transports : List (Transport m)) (cooldown : Nat)
    (chain : String) : Transport m where
  url := chain
  send r := call cell transports cooldown (·.send r)
  batch rs := call cell transports cooldown (·.batch rs)
  health := do return (← cell.get).health

end Pool

end ChainFeed.Rpc
