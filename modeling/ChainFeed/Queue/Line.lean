import ChainFeed.Queue.Consumer

/-!
# A consumer on its queue

A queue in memory together with the one consumer that receives from it. Pushes, the passing of time and
the moves of the consumer and its workers may come in any order; `next` picks the moves that the
consumer makes by itself, so that it can be run until it waits.
-/

namespace ChainFeed

namespace Line

inductive Asking where
  /-- The call fails. -/
  | failing
  | waiting (r : Receive)
  deriving DecidableEq, Repr

end Line

structure Line.Config where
  queue : Queue.Config := {}
  filter : ChainEvent → Verdict := fun _ => .accept
  capacity : Nat := 10
  backoff : Nat := 1000

/-- The consumer knows the queue only by how long it leases a message. -/
def Line.Config.consumer (c : Line.Config) : Consumer.Config :=
  { filter := c.filter, capacity := c.capacity, backoff := c.backoff, visibility := c.queue.visibility }

structure Line where
  now : Nat := 0
  queue : Queue := {}
  consumer : Consumer := {}
  started : Bool := false
  asking : Option Line.Asking := none
  /-- How many of the next receives fail. -/
  receiveFaults : Nat := 0
  deleteFault : Bool := false

namespace Line

inductive Move where
  | push (body : String)
  | pass (ms : Nat)
  | answer
  | act (m : Consumer.Move)

def call (c : Config) (s : Line) : Consumer.Call → Line
  | .receive =>
    if s.receiveFaults = 0 then
      let (r, queue) := Receive.start c.queue s.now s.queue
      { s with queue, asking := some (.waiting r) }
    else { s with receiveFaults := s.receiveFaults - 1, asking := some .failing }
  | .delete handle => if s.deleteFault then s else { s with queue := (s.queue.delete handle).2 }

def act? (c : Config) (s : Line) (m : Consumer.Move) : Option Line :=
  match s.consumer.step? c.consumer m with
  | some (calls, consumer) => some (calls.foldl (call c) { s with consumer })
  | none => none

def reply (c : Config) (s : Line) : Option (Except QueueError (List Handout)) × Queue :=
  match s.asking with
  | some .failing => (some (.error (.unavailable "receive failed")), s.queue)
  | some (.waiting r) =>
    let (batch, queue) := r.poll c.queue s.now s.queue
    (batch.map .ok, queue)
  | none => (none, s.queue)

/-- A move, if it is possible. The consumer gets its answers from the queue only. -/
def step? (c : Config) (s : Line) : Move → Option Line
  | .push body => some { s with queue := (s.queue.push body).2 }
  | .pass ms => some { s with now := s.now + ms }
  | .answer =>
    match s.reply c with
    | (some r, queue) => act? c { s with queue, asking := none } (.answer s.now r)
    | (none, _) => none
  | .act (.answer _ _) => none
  | .act m => act? c s m

def next (c : Config) (s : Line) : Option Move :=
  if !s.started then none
  else if s.consumer.signalled && s.consumer.isWaiting then some (.act .stop)
  else
    match s.consumer.phase with
    | .ready => some (.act .ask)
    | .receiving => if (s.reply c).1.isSome then some .answer else none
    | .pausing wake => if wake ≤ s.now then some (.act (.resume s.now)) else none
    | .dispatching _ _ => some (.act .dispatch)
    | .sending _ _ => if s.consumer.closed || s.consumer.room c.consumer then some (.act .send) else none
    | .settling => if s.consumer.inFlight = 0 then some (.act .settle) else none
    | .stopped => none

/-- Lets the consumer run until it waits, for at most so many moves. -/
def settle (c : Config) : Nat → Line → Line
  | 0, s => s
  | moves + 1, s =>
    match (s.next c).bind (s.step? c) with
    | some s => settle c moves s
    | none => s

def wake (s : Line) : Option Nat :=
  match s.consumer.phase, s.asking with
  | .receiving, some (.waiting r) => some (r.wake s.queue)
  | .pausing wake, _ => some wake
  | _, _ => none

def moveBudget : Nat := 1000000

/-- Lets time pass up to `target`, stopping wherever the consumer goes on by itself, at most so many
times. -/
def passTo (c : Config) (target : Nat) : Nat → Line → Line
  | 0, s => { s with now := target }
  | stops + 1, s =>
    match s.wake with
    | some t =>
      if t ≤ target then passTo c target stops (settle c moveBudget { s with now := max s.now t })
      else { s with now := target }
    | none => { s with now := target }

def advance (c : Config) (ms : Nat) (s : Line) : Line := passTo c (s.now + ms) (ms + 1) s

def start (s : Line) : Line := { s with started := true }

def perform (c : Config) (s : Line) (m : Move) : Line := settle c moveBudget ((s.step? c m).getD s)

def push (c : Config) (body : String) (s : Line) : String × Line :=
  ((s.queue.push body).1, s.perform c (.push body))

def pushEvent (c : Config) (e : ChainEvent) (now : Timestamp) (s : Line) : String × Line :=
  s.push c (Queue.eventBody e now)

def acknowledge (c : Config) (s : Line) (slot : Nat) : Line :=
  settle c moveBudget (((act? c s (.ack slot)).bind fun s => act? c s (.acked slot)).getD s)

end Line

end ChainFeed
