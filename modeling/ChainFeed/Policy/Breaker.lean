/-!
# Circuit breakers

A breaker opens after a run of failures, refuses calls while it is open, and then admits one trial
call at a time until enough of them have succeeded. Opening ends lazily: the breaker becomes
half-open when someone looks at it after the cool-down. A trial that never reports back stops
blocking others after another cool-down.
-/

namespace ChainFeed

/-- Times are in milliseconds. -/
structure Breaker.Config where
  /-- Failures in a row before the breaker opens. -/
  failureThreshold : Nat := 5
  /-- How long the breaker stays open. -/
  openFor : Nat := 30000
  /-- Successful trials before the breaker closes. -/
  successThreshold : Nat := 1
  deriving DecidableEq, Repr

inductive Breaker where
  /-- Calls are admitted; the failures in a row are counted. -/
  | closed (failures : Nat)
  | opened (since : Nat)
  /-- One trial at a time, the current one started at `trial`. -/
  | halfOpen (successes : Nat) (trial : Option Nat)
  deriving DecidableEq, Repr

namespace Breaker

def initial : Breaker := .closed 0

inductive Phase where
  | closed
  | opened
  | halfOpen
  deriving DecidableEq, Repr

def Phase.render : Phase → String
  | .closed => "closed"
  | .opened => "open"
  | .halfOpen => "half-open"

def Phase.describe (p : Phase) : String :=
  let name := match p with
    | .closed => "Closed"
    | .opened => "Open"
    | .halfOpen => "HalfOpen"
  "CircuitBreaker \x7b state: " ++ name ++ " \x7d"

def phase : Breaker → Phase
  | .closed _ => .closed
  | .opened _ => .opened
  | .halfOpen _ _ => .halfOpen

def refresh (c : Config) (now : Nat) : Breaker → Breaker
  | .opened since => if since + c.openFor ≤ now then .halfOpen 0 none else .opened since
  | b => b

def observe (c : Config) (now : Nat) (b : Breaker) : Phase × Breaker :=
  let b := b.refresh c now
  (b.phase, b)

def acquire (c : Config) (now : Nat) (b : Breaker) : Bool × Breaker :=
  match b.refresh c now with
  | .closed n => (true, .closed n)
  | .opened since => (false, .opened since)
  | .halfOpen n (some trial) =>
    if now < trial + c.openFor then (false, .halfOpen n (some trial)) else (true, .halfOpen n (some now))
  | .halfOpen n none => (true, .halfOpen n (some now))

def succeed (c : Config) : Breaker → Breaker
  | .closed _ => .closed 0
  | .opened since => .opened since
  | .halfOpen n _ => if c.successThreshold ≤ n + 1 then .closed 0 else .halfOpen (n + 1) none

def fail (c : Config) (now : Nat) : Breaker → Breaker
  | .closed n => if c.failureThreshold ≤ n + 1 then .opened now else .closed (n + 1)
  | .opened since => .opened since
  | .halfOpen _ _ => .opened now

def record (c : Config) (now : Nat) (ok : Bool) (b : Breaker) : Breaker :=
  if ok then b.succeed c else b.fail c now

end Breaker

end ChainFeed
