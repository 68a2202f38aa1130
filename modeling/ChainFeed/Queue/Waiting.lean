import ChainFeed.Queue.Leases

/-!
# Waiting for messages

A receive looks for messages, and sleeps as long as there are none. A push wakes it, and so does the
clock when there may be something to find: when the first lease has run out, or at the deadline. A push
that finds nobody asleep is remembered and ends the next sleep at once; how many there were is not
remembered.
-/

namespace ChainFeed

inductive Receive.Stage where
  | looking
  | asleep (wake : Nat)
  | served (batch : List Handout) (moment : Nat)
  deriving DecidableEq, Repr

structure Vigil where
  now : Nat
  queue : Queue
  /-- Whether there was a push that has woken nobody yet. -/
  rung : Bool
  receive : Receive
  stage : Receive.Stage
  deriving DecidableEq, Repr

namespace Vigil

def begin (c : Queue.Config) (now : Nat) (rung : Bool) (q : Queue) : Vigil :=
  let (receive, queue) := Receive.start c now q
  { now, queue, rung, receive, stage := .looking }

def push (body : String) (v : Vigil) : Vigil := { v with queue := (v.queue.push body).2, rung := true }

def delete (handle : String) (v : Vigil) : Vigil := { v with queue := (v.queue.delete handle).2 }

def look? (c : Queue.Config) (v : Vigil) : Option Vigil :=
  match v.stage with
  | .looking =>
    match v.receive.poll c v.now v.queue with
    | (some batch, queue) => some { v with queue, stage := .served batch v.now }
    | (none, queue) => some { v with queue, stage := .asleep (v.receive.wake queue) }
  | _ => none

def hear? (v : Vigil) : Option Vigil :=
  match v.stage with
  | .asleep _ => if v.rung then some { v with rung := false, stage := .looking } else none
  | _ => none

def rouse? (v : Vigil) : Option Vigil :=
  match v.stage with
  | .asleep wake => if wake ≤ v.now then some { v with stage := .looking } else none
  | _ => none

def act? (c : Queue.Config) (v : Vigil) : Option Vigil := (v.look? c).or (v.hear?.or v.rouse?)

/-- Lets the receive act until it sleeps soundly or has ended, for at most so many times. -/
def settle (c : Queue.Config) : Nat → Vigil → Vigil
  | 0, v => v
  | acts + 1, v =>
    match v.act? c with
    | some v => settle c acts v
    | none => v

/-- Lets time pass while the receive sleeps and nothing wakes it. -/
def pass? (ms : Nat) (v : Vigil) : Option Vigil :=
  match v.stage with
  | .asleep wake =>
    if v.rung || decide (wake < v.now + ms) then none else some { v with now := v.now + ms }
  | _ => none

end Vigil

end ChainFeed
