/-!
# Counters

What the feed counts, under keys that name the kind and the labels of a count.
-/

namespace ChainFeed

inductive Metric where
  /-- A queue message was decoded. -/
  | consumed (chainId : UInt64)
  /-- A decoded message was rejected and deleted. -/
  | filtered (chainId : UInt64)
  /-- A decoded message was forwarded. -/
  | unfiltered (chainId : UInt64)
  | rpc (chain method : String) (ok : Bool)
  | cycle (poller : String) (items : Nat)
  deriving DecidableEq, Repr

/-- The keys that a metric adds to, and how much. -/
def Metric.amounts : Metric → List (String × Nat)
  | .consumed id => [("consumed:" ++ toString id, 1)]
  | .filtered id => [("filtered:" ++ toString id, 1)]
  | .unfiltered id => [("unfiltered:" ++ toString id, 1)]
  | .rpc chain method ok => [((if ok then "rpc_ok:" else "rpc_err:") ++ chain ++ ":" ++ method, 1)]
  | .cycle poller items => [("poll_cycles:" ++ poller, 1), ("poll_items:" ++ poller, items)]

abbrev Counters := List (String × Nat)

namespace Counters

def add (key : String) (n : Nat) : Counters → Counters
  | [] => [(key, n)]
  | (k, v) :: rest =>
    if key = k then (k, v + n) :: rest
    else if key < k then (key, n) :: (k, v) :: rest
    else (k, v) :: add key n rest

def record (c : Counters) (m : Metric) : Counters :=
  m.amounts.foldl (fun c a => c.add a.1 a.2) c

def get (c : Counters) (key : String) : Nat := ((c.find? (·.1 == key)).map (·.2)).getD 0

end Counters

end ChainFeed
