import ChainFeed.Queue.Line
import ChainFeed.Queue.Waiting
import ChainFeed.Rehearsal.World

/-!
# Rehearsing a queue

Receives from a queue in memory on a clock of its own, alone or while messages are pushed and deleted.
-/

namespace ChainFeed

namespace Rehearsal

structure Desk where
  now : Nat := 0
  queue : Queue := {}
  /-- Whether there was a push that has woken nobody yet. -/
  rung : Bool := false

inductive Interlude where
  | advance (ms : Nat)
  | push (body : String)
  | pushEvent (event : ChainEvent)
  | delete (handle : String)

end Rehearsal

namespace Vigil

open Rehearsal

def actBudget : Nat := 4

/-- Lets time pass up to `target`, waking the receive wherever the clock does, at most so many times. -/
def passTo (c : Queue.Config) (target : Nat) : Nat → Vigil → Vigil
  | 0, v => { v with now := target }
  | stops + 1, v =>
    match v.stage with
    | .asleep wake =>
      if wake ≤ target then passTo c target stops (settle c actBudget { v with now := max v.now wake })
      else { v with now := target }
    | _ => { v with now := target }

def during (c : Queue.Config) (v : Vigil) : Interlude → Vigil
  | .advance ms => passTo c (v.now + ms) (ms + 1) v
  | .push body => settle c actBudget (v.push body)
  | .pushEvent event => settle c actBudget (v.push (Queue.eventBody event (wallAt v.now)))
  | .delete handle => settle c actBudget (v.delete handle)

/-- Waits for the end of a receive, for at most so many sleeps; what was received, and when. -/
def await (c : Queue.Config) : Nat → Vigil → Vigil × List Handout × Nat
  | 0, v => (v, [], v.now)
  | sleeps + 1, v =>
    match v.stage with
    | .served batch moment => (v, batch, moment)
    | .asleep wake => await c sleeps (settle c actBudget { v with now := max v.now wake })
    | .looking => await c sleeps (settle c actBudget v)

end Vigil

namespace Rehearsal.Desk

def push (d : Desk) (body : String) : String × Desk :=
  let (id, queue) := d.queue.push body
  (id, { d with queue, rung := true })

def pushEvent (d : Desk) (event : ChainEvent) : String × Desk := d.push (Queue.eventBody event (wallAt d.now))

def delete (d : Desk) (handle : String) : Except QueueError PUnit × Desk :=
  let (r, queue) := d.queue.delete handle
  (r, { d with queue })

def receive (c : Queue.Config) (d : Desk) (meanwhile : List Interlude) : Desk × List Handout × Nat :=
  let v := (Vigil.begin c d.now d.rung d.queue).settle c Vigil.actBudget
  let (v, batch, moment) := (meanwhile.foldl (Vigil.during c) v).await c (c.wait + 2)
  ({ now := v.now, queue := v.queue, rung := v.rung }, batch, moment)

end Rehearsal.Desk

end ChainFeed
