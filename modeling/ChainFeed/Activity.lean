import ChainFeed.Clock

/-!
# Activities

An activity shares a state with other activities. It acts on the state, which takes no time, and it
waits: for some time, or until the state meets a condition, whichever comes first. Running an activity
alone moves time from one wait to the next; a suspended activity can be dropped.
-/

namespace ChainFeed

/-- A computation with a result in `α` that shares a state of type `σ`. -/
inductive Activity (σ α : Type) : Type 1 where
  | done (result : α)
  /-- Acts on the state at the present moment. -/
  | act {β : Type} (use : Nat → σ → β × σ) (next : β → Activity σ α)
  /-- Waits for `ms` milliseconds, or for ever, unless the state meets the condition before. -/
  | wait (ms : Option Nat) (wakeWhen : σ → Bool) (next : Activity σ α)

namespace Activity

variable {σ α β : Type}

def bind : Activity σ α → (α → Activity σ β) → Activity σ β
  | .done a, f => f a
  | .act use next, f => .act use fun b => (next b).bind f
  | .wait ms wakeWhen next, f => .wait ms wakeWhen (next.bind f)

instance : Monad (Activity σ) where
  pure := .done
  bind := .bind

def update (use : Nat → σ → β × σ) : Activity σ β := .act use .done

def shared {s : Type} (get : σ → s) (set : s → σ → σ) : Shared (Activity σ) s where
  update f := Activity.update fun _ w =>
    let (a, x) := f (get w)
    (a, set x w)

/-- Runs an activity as long as the state does not meet a condition; dropped at a wait, it has no
result. -/
def whileNot (stop : σ → Bool) : Activity σ α → Activity σ (Option α)
  | .done a => .done (some a)
  | .act use next => .act use fun b => (next b).whileNot stop
  | .wait ms wakeWhen next =>
    .wait ms (fun s => wakeWhen s || stop s)
      (.act (fun _ s => (stop s, s)) fun stopped =>
        match stopped with
        | true => .done none
        | false => next.whileNot stop)

/-- Runs an activity up to a moment; dropped at a wait that goes beyond it, it has no result. -/
def upTo (deadline : Nat) : Activity σ α → Activity σ (Option α)
  | .done a => .done (some a)
  | .act use next => .act use fun b => (next b).upTo deadline
  | .wait ms wakeWhen next =>
    .act (fun now s => (now, s)) fun now =>
      if ms.any fun d => now + d ≤ deadline then .wait ms wakeWhen (next.upTo deadline)
      else
        .wait (some (deadline - now)) wakeWhen
          (.act (fun _ s => (wakeWhen s, s)) fun woken =>
            match woken with
            | true => next.upTo deadline
            | false => .done none)

structure Suspended (σ α : Type) where
  wake : Option Nat
  wakeWhen : σ → Bool
  next : Activity σ α

inductive Progress (σ α : Type) : Type 1 where
  | ended (result : α) (at' : Nat)
  | waiting (s : Suspended σ α)

def reachable (limit : Option Nat) (wake : Nat) : Bool :=
  match limit with
  | some l => wake ≤ l
  | none => true

/-- Runs an activity alone from the moment `now`, through every wait that ends by `limit`. -/
def runUntil (limit : Option Nat) : Activity σ α → Nat → σ → Progress σ α × σ
  | .done a, now, s => (.ended a now, s)
  | .act use next, now, s =>
    let (b, s) := use now s
    (next b).runUntil limit now s
  | .wait ms wakeWhen next, now, s =>
    if wakeWhen s then next.runUntil limit now s
    else
      match ms with
      | none => (.waiting ⟨none, wakeWhen, next⟩, s)
      | some d =>
        if reachable limit (now + d) then next.runUntil limit (now + d) s
        else (.waiting ⟨some (now + d), wakeWhen, next⟩, s)

/-- Resumes a suspended activity: at once if the state meets its condition, else at its moment if
that comes by `limit`. -/
def Suspended.resume (x : Suspended σ α) (limit : Option Nat) (now : Nat) (s : σ) : Progress σ α × σ :=
  if x.wakeWhen s then x.next.runUntil limit now s
  else
    match x.wake with
    | none => (.waiting x, s)
    | some t => if reachable limit t then x.next.runUntil limit (max now t) s else (.waiting x, s)

end Activity

end ChainFeed
