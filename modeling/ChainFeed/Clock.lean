import ChainFeed.Table
import ChainFeed.Timestamp

/-!
# Clocks and shared state

A component runs in a monad `m` that it knows only by what it can do there: read the clock, wait, and
use the state that it shares with others.
-/

namespace ChainFeed

universe u

/-- Time in `m`. A moment is a number of milliseconds since some start. -/
class Clock (m : Type → Type u) where
  now : m Nat
  sleep : Nat → m PUnit
  wall : m Timestamp
  /-- The same in whole seconds since 1970. -/
  unixTime : m Int64

/-- Access to a state of type `s` that everything running in `m` shares. -/
structure Shared (m : Type → Type u) (s : Type) where
  update : {α : Type} → (s → α × s) → m α

namespace Shared

variable {m : Type → Type u} {s : Type}

def get (cell : Shared m s) : m s := cell.update fun x => (x, x)

def modify (cell : Shared m s) (f : s → s) : m PUnit := cell.update fun x => ((), f x)

def entry (cell : Shared m (Table s)) (name : String) (fresh : s) : Shared m s where
  update f := cell.update fun t =>
    let (a, x) := f ((t.get? name).getD fresh)
    (a, t.insert name x)

end Shared

end ChainFeed
