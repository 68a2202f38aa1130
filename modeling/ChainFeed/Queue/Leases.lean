import ChainFeed.Queue.Event

/-!
# Leased messages

A queue in memory. A message that is handed out is leased for some time: while the lease lasts, nobody
else gets the message, and whoever has the handle of the lease may delete it. A lease that has run
out is noticed by the next receive, which puts the message back at the end of the queue.
-/

namespace ChainFeed

structure Queue.Config where
  visibility : Nat := 30000
  wait : Nat := 1000
  /-- The most messages of one receive; none count as one. -/
  batch : Nat := 10
  deriving DecidableEq, Repr

def Queue.Config.batchSize (c : Queue.Config) : Nat := max c.batch 1

structure Message where
  /-- Which message it is, counted from one. -/
  number : Nat
  body : String
  receives : Nat := 0
  deriving DecidableEq, Repr

structure Handout where
  id : String
  handle : String
  body : String
  deriving DecidableEq, Repr

namespace Message

def id (m : Message) : String := "msg-" ++ toString m.number

def handle (m : Message) : String := m.id ++ "#" ++ toString m.receives

def received (m : Message) : Message := { m with receives := m.receives + 1 }

def handout (m : Message) : Handout := ⟨m.id, m.handle, m.body⟩

end Message

structure Lease where
  message : Message
  expires : Nat
  deriving DecidableEq, Repr

/-- The messages of a queue, each in one place. -/
structure Queue where
  /-- Those that may be handed out, the next one first. -/
  visible : List Message := []
  leased : List Lease := []
  deleted : List Message := []
  pushed : Nat := 0
  receives : Nat := 0
  deriving DecidableEq, Repr

inductive QueueError where
  | unknownHandle (handle : String)
  | unavailable (reason : String)
  deriving DecidableEq, Repr

def QueueError.message : QueueError → String
  | .unknownHandle handle => "queue service error: unknown or expired receipt handle " ++ handle
  | .unavailable reason => "queue service error: " ++ reason

namespace Queue

def push (body : String) (q : Queue) : String × Queue :=
  let m : Message := { number := q.pushed + 1, body }
  (m.id, { q with visible := q.visible ++ [m], pushed := q.pushed + 1 })

def envelopeId (e : ChainEvent) : String := "env-" ++ e.id

def eventBody (e : ChainEvent) (now : Timestamp) : String :=
  (Envelope.wrap (envelopeId e) e now).toJson.render

def pushEvent (e : ChainEvent) (now : Timestamp) (q : Queue) : String × Queue := q.push (eventBody e now)

/-- Puts the messages back whose leases have run out by `now`. -/
def reclaim (now : Nat) (q : Queue) : Queue :=
  { q with
    visible := q.visible ++ (q.leased.filter fun l => l.expires ≤ now).map (·.message)
    leased := q.leased.filter fun l => !decide (l.expires ≤ now) }

/-- Leases messages at time `now`, those that have waited longest. -/
def take (c : Config) (now : Nat) (q : Queue) : List Handout × Queue :=
  let q := q.reclaim now
  let taken := (q.visible.take c.batchSize).map Message.received
  (taken.map Message.handout,
    { q with
      visible := q.visible.drop c.batchSize
      leased := q.leased ++ taken.map fun m => ⟨m, now + c.visibility⟩ })

def nextExpiry (q : Queue) : Option Nat := (q.leased.map (·.expires)).min?

def delete (handle : String) (q : Queue) : Except QueueError PUnit × Queue :=
  match q.leased.find? (·.message.handle == handle) with
  | some l =>
    (.ok (), { q with
      leased := q.leased.filter (·.message.handle != handle)
      deleted := q.deleted ++ [l.message] })
  | none => (.error (.unknownHandle handle), q)

end Queue

/-- A receive under way; it ends as soon as there is a message, or at its deadline. -/
structure Receive where
  deadline : Nat
  deriving DecidableEq, Repr

namespace Receive

def start (c : Queue.Config) (now : Nat) (q : Queue) : Receive × Queue :=
  (⟨now + c.wait⟩, { q with receives := q.receives + 1 })

/-- Looks for messages at time `now`; nothing when the receive goes on. -/
def poll (c : Queue.Config) (now : Nat) (r : Receive) (q : Queue) : Option (List Handout) × Queue :=
  let (batch, q) := q.take c now
  (if batch.isEmpty && decide (now < r.deadline) then none else some batch, q)

/-- When to look again if nothing is pushed meanwhile. -/
def wake (q : Queue) (r : Receive) : Nat :=
  match q.nextExpiry with
  | some t => min t r.deadline
  | none => r.deadline

end Receive

end ChainFeed
