import ChainFeed.Chain.Repository

/-!
# Ranges of blocks

What is fetched in one go, and why fetching it may fail.
-/

namespace ChainFeed

structure BlockRange where
  first : UInt64
  last : UInt64
  deriving DecidableEq, Repr

namespace BlockRange

def isEmpty (r : BlockRange) : Bool := r.last < r.first

def render (r : BlockRange) : String := "[" ++ toString r.first ++ ", " ++ toString r.last ++ "]"

def size (r : BlockRange) : Nat := r.last.toNat + 1 - r.first.toNat

end BlockRange

inductive PollError where
  | repository (error : RepositoryError)
  | sink (message : String)

namespace PollError

def message : PollError → String
  | .repository e => "repository error: " ++ e.message
  | .sink m => "sink error: " ++ m

def isCircuitOpen : PollError → Bool
  | .repository e => e.isCircuitOpen
  | .sink _ => false

end PollError

universe u

/-- A call to the repository as a part of fetching a range. -/
def asking {m : Type → Type u} [Monad m] {α : Type} (call : m (Except RepositoryError α)) :
    ExceptT PollError m α :=
  .mk do return (← call).mapError .repository

end ChainFeed
