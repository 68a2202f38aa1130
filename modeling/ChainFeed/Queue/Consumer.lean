import ChainFeed.Metrics
import ChainFeed.Queue.Leases

/-!
# Consumers

A consumer takes messages from a queue in batches, decodes and filters them, and forwards the accepted
ones to workers through a channel of limited capacity. It asks for the next batch only when every
message that it forwarded has been acknowledged, failed or dropped.

What the consumer, its workers and its queue do are moves; `step?` says when a move is possible, what
becomes of the consumer, and which calls to the queue it makes. Any sequence of possible moves is a
run.
-/

namespace ChainFeed

structure Delivery where
  event : ChainEvent
  messageId : String
  handle : String
  expires : Nat
  deriving DecidableEq, Repr

/-- Whether the lease has run out; somebody else may have the message then. -/
def Delivery.isExpired (d : Delivery) (now : Nat) : Bool := d.expires ≤ now

structure Consumer.Config where
  filter : ChainEvent → Verdict := fun _ => .accept
  /-- How many messages the channel holds; none count as one. -/
  capacity : Nat := 10
  backoff : Nat := 1000
  /-- How long the queue leases a message. -/
  visibility : Nat

namespace Consumer

inductive Phase where
  | ready
  | receiving
  | pausing (wake : Nat)
  | dispatching (expires : Nat) (rest : List Handout)
  | sending (message : Delivery) (rest : List Handout)
  | settling
  | stopped
  deriving DecidableEq, Repr

structure Held where
  slot : Nat
  message : Delivery
  /-- Whether it is being deleted from the queue. -/
  acking : Bool := false
  deriving DecidableEq, Repr

inductive Call where
  | receive
  | delete (handle : String)
  deriving DecidableEq, Repr

end Consumer

structure Consumer where
  phase : Consumer.Phase := .ready
  channel : List Delivery := []
  held : List Consumer.Held := []
  taken : Nat := 0
  /-- Forwarded messages that are not settled, as the consumer counts them. -/
  inFlight : Int := 0
  /-- Whether the receiving end of the channel is gone. -/
  closed : Bool := false
  /-- The last value that was sent to end the consumer. -/
  told : Bool := false
  /-- Whether any value was sent, or its sender is gone. -/
  signalled : Bool := false
  counters : Counters := []
  deriving DecidableEq, Repr

namespace Consumer

inductive Move where
  /-- The consumer asks for a batch, unless it has been told to end or nobody receives from the
  channel. -/
  | ask
  | answer (now : Nat) (reply : Except QueueError (List Handout))
  | resume (now : Nat)
  | dispatch
  /-- The message goes into the channel, or the consumer ends as nobody receives from it. -/
  | send
  | settle
  | stop
  | take
  | ack (slot : Nat)
  | acked (slot : Nat)
  /-- A worker fails or drops a message, or gives up an acknowledgement before it is answered: the
  message is left to its lease. -/
  | discard (slot : Nat)
  /-- The receiving end of the channel goes away with what is in the channel. -/
  | close
  | tell (value : Bool)
  | hangUp
  deriving Repr

def isWaiting (s : Consumer) : Bool :=
  match s.phase with
  | .receiving | .pausing _ | .sending _ _ | .settling => true
  | _ => false

def room (c : Config) (s : Consumer) : Bool := s.channel.length < max c.capacity 1

def acquire (s : Consumer) : Consumer := { s with inFlight := s.inFlight + 1 }

def release (n : Nat) (s : Consumer) : Consumer := { s with inFlight := s.inFlight - n }

def count (m : Metric) (s : Consumer) : Consumer := { s with counters := s.counters.record m }

/-- What becomes of the next message of a batch: it stays in the queue if it cannot be decoded, is
deleted if the filter rejects it, and is forwarded otherwise. -/
def handle (c : Config) (s : Consumer) (expires : Nat) (h : Handout) (rest : List Handout) :
    List Call × Consumer :=
  match decodeMessage? h.body with
  | none => ([], { s with phase := .dispatching expires rest })
  | some event =>
    let s := s.count (.consumed event.chainId)
    match c.filter event with
    | .skip =>
      ([.delete h.handle], { s.count (.filtered event.chainId) with phase := .dispatching expires rest })
    | .accept =>
      ([], { (s.count (.unfiltered event.chainId)).acquire with
        phase := .sending ⟨event, h.id, h.handle, expires⟩ rest })

/-- The consumer after a move and the calls that it makes, if the move is possible. -/
def step? (c : Config) (s : Consumer) : Move → Option (List Call × Consumer)
  | .ask =>
    match s.phase with
    | .ready =>
      if s.told || s.closed then some ([], { s with phase := .stopped })
      else some ([.receive], { s with phase := .receiving })
    | _ => none
  | .answer now reply =>
    match s.phase, reply with
    | .receiving, .error _ => some ([], { s with phase := .pausing (now + c.backoff) })
    | .receiving, .ok [] => some ([], { s with phase := .ready })
    | .receiving, .ok batch => some ([], { s with phase := .dispatching (now + c.visibility) batch })
    | _, _ => none
  | .resume now =>
    match s.phase with
    | .pausing wake => if wake ≤ now then some ([], { s with phase := .ready }) else none
    | _ => none
  | .dispatch =>
    match s.phase with
    | .dispatching _ [] => some ([], { s with phase := .settling })
    | .dispatching expires (h :: rest) => some (s.handle c expires h rest)
    | _ => none
  | .send =>
    match s.phase with
    | .sending m rest =>
      if s.closed then some ([], { s.release 1 with phase := .stopped })
      else if s.room c then
        some ([], { s with channel := s.channel ++ [m], phase := .dispatching m.expires rest })
      else none
    | _ => none
  | .settle =>
    match s.phase with
    | .settling => if s.inFlight = 0 then some ([], { s with phase := .ready }) else none
    | _ => none
  | .stop =>
    if s.signalled && s.isWaiting then
      match s.phase with
      | .sending _ _ => some ([], { s.release 1 with phase := .stopped })
      | _ => some ([], { s with phase := .stopped })
    else none
  | .take =>
    match s.channel with
    | m :: rest =>
      some ([], { s with channel := rest, held := s.held ++ [⟨s.taken, m, false⟩], taken := s.taken + 1 })
    | [] => none
  | .ack slot =>
    match s.held.find? fun h => h.slot == slot && !h.acking with
    | some h =>
      some ([.delete h.message.handle],
        { s with held := s.held.map fun h => if h.slot = slot then { h with acking := true } else h })
    | none => none
  | .acked slot =>
    if s.held.any fun h => h.slot == slot && h.acking then
      some ([], { s.release 1 with held := s.held.filter (·.slot != slot) })
    else none
  | .discard slot =>
    if s.held.any fun h => h.slot == slot then
      some ([], { s.release 1 with held := s.held.filter (·.slot != slot) })
    else none
  | .close =>
    if s.closed then none
    else some ([], { s.release s.channel.length with channel := [], closed := true })
  | .tell value => some ([], { s with told := value, signalled := true })
  | .hangUp => some ([], { s with signalled := true })

end Consumer

end ChainFeed
