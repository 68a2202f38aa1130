import ChainFeed.Clock

/-!
# Retry schedules

A schedule says how long to wait before each retry: always the same time, or a time that grows by a
factor up to a cap. Delays are computed in doubles.
-/

namespace ChainFeed

universe u

structure Retry where
  maxRetries : Nat := 3
  /-- The delay before the first retry. -/
  initial : UInt64 := 100
  cap : UInt64 := 10000
  /-- What each delay is multiplied by to give the next. -/
  multiplier : Float := 2.0

namespace Retry

def fixed (retries : Nat) (interval : UInt64) : Retry :=
  { maxRetries := retries, initial := interval, cap := interval, multiplier := 1.0 }

def power (base acc : Float) (exponent : Nat) : Float :=
  if exponent = 0 then acc
  else power (base * base) (if exponent % 2 = 1 then acc * base else acc) (exponent / 2)

/-- The smaller of two doubles, where a missing number gives way to the other. -/
def smaller (a b : Float) : Float :=
  if a.isNaN then b else if b.isNaN then a else if b < a then b else a

def maxExponent : Nat := 0x7fffffff

def delay (r : Retry) (attempt : Nat) : Nat :=
  let grown := r.initial.toFloat * power r.multiplier 1.0 (min (attempt - 1) maxExponent)
  (smaller grown r.cap.toFloat).toUInt64.toNat

/-- The delay before retry number `attempt`, as long as there are retries left. -/
def delay? (r : Retry) (attempt : Nat) : Option Nat :=
  if attempt = 0 ∨ r.maxRetries < attempt then none else some (r.delay attempt)

variable {m : Type → Type u} [Monad m] [Clock m] {ε α : Type}

/-- Repeats `action`, try number `attempt` with `left` retries to go, as long as its error is
`retryable`. -/
def repeatFrom (r : Retry) (retryable : ε → Bool) (action : m (Except ε α)) :
    Nat → Nat → m (Except ε α)
  | 0, _ => action
  | left + 1, attempt => do
    match ← action with
    | .ok value => return .ok value
    | .error e =>
      if retryable e then
        Clock.sleep (r.delay attempt)
        repeatFrom r retryable action left (attempt + 1)
      else return .error e

def run (r : Retry) (retryable : ε → Bool) (action : m (Except ε α)) : m (Except ε α) :=
  repeatFrom r retryable action r.maxRetries 1

end Retry

end ChainFeed
