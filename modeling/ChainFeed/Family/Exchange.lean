import ChainFeed.Chain.Repository
import ChainFeed.Clock

/-!
# Asking a node

Every family asks its questions in the same few ways: one request, one batch whose answers are told
apart by their ids, or batches of at most ten. What a node answers is read with the wording of the
question, so that a fault names what was malformed.
-/

namespace ChainFeed.Family

universe u

open Rpc (Request Response NodeError Transport)

def fault {α : Type} (f : ProtocolFault) : Except RepositoryError α := .error (.protocol f)

def result (r : Response) : Except RepositoryError Json :=
  match r.outcome with
  | .ok value => .ok value
  | .error e => .error (.transport (.rpc e))

def answer (responses : List Response) (method : String) (id : UInt64) :
    Except RepositoryError Response :=
  match Response.answer? responses id with
  | some r => .ok r
  | none => fault (.unanswered method id)

def readPart {α : Type} (what : String) (read : Json → Option α) (j : Json) :
    Except RepositoryError α :=
  match read j with
  | some a => .ok a
  | none => fault (.malformed what)

def quantity (field text : String) : Except RepositoryError UInt64 :=
  match Quantity.read? text with
  | some n => .ok n
  | none => fault (.badHex field text)

def present {α : Type} (subject part : String) : Option α → Except RepositoryError α
  | some a => .ok a
  | none => fault (.without subject part)

def nonEmpty (hash : Option String) : Option String := hash.filter fun h => !h.isEmpty

section

variable {m : Type → Type u} [Monad m]

def serving {α : Type} (chains : Registry m) (chain : String)
    (serve : ChainSettings m → ExceptT RepositoryError m α) : ExceptT RepositoryError m α :=
  match chains.get chain with
  | .ok settings => serve settings
  | .error e => throw e

def having {α : Type} (e : Except RepositoryError α) : ExceptT RepositoryError m α := .mk (pure e)

def carried {α : Type} (call : m (Except Rpc.TransportError α)) : ExceptT RepositoryError m α :=
  .mk do return (← call).mapError RepositoryError.ofTransport

def ask (t : Transport m) (r : Request) : ExceptT RepositoryError m Json := do
  having (result (← carried (t.send r)))

def askAll (t : Transport m) (rs : List Request) : ExceptT RepositoryError m (List Response) :=
  if rs.isEmpty then pure [] else carried (t.batch rs)

end

/-- How a family asks for a block by its number, and what it makes of the answer. -/
structure BlockDialect (β : Type) where
  method : String
  request : UInt64 → Request
  isUnavailable : NodeError → Bool
  read : UInt64 → Json → Except RepositoryError β

namespace BlockDialect

variable {β : Type}

def readAnswer (d : BlockDialect β) (responses : List Response) (n : UInt64) :
    Except RepositoryError (Option β) :=
  match answer responses d.method n with
  | .error e => .error e
  | .ok response =>
    match response.outcome with
    | .error e => if d.isUnavailable e then .ok none else .error (.transport (.rpc e))
    | .ok .null => .ok none
    | .ok value => (d.read n value).map some

def readAnswers (d : BlockDialect β) (responses : List Response) :
    List UInt64 → Except RepositoryError (List (UInt64 × Option β))
  | [] => .ok []
  | n :: ns =>
    match d.readAnswer responses n with
    | .error e => .error e
    | .ok found => (d.readAnswers responses ns).map ((n, found) :: ·)

/-- Asks for many blocks at once; each request carries the number of its block as id. -/
def fetch {m : Type → Type u} [Monad m] (d : BlockDialect β) (t : Transport m) (numbers : BlockSet) :
    ExceptT RepositoryError m (List (UInt64 × Option β)) := do
  let responses ← askAll t (numbers.toList.map d.request)
  having (d.readAnswers responses numbers.toList)

end BlockDialect

def batchSize : Nat := 10

def pieces {α : Type} (size : Nat) (l : List α) : List (List α) :=
  if _h : l = [] ∨ size = 0 then []
  else l.take size :: pieces size (l.drop size)
termination_by l.length
decreasing_by
  have := List.length_pos_iff.mpr fun e => _h (.inl e)
  have : size ≠ 0 := fun e => _h (.inr e)
  simp only [List.length_drop]
  omega

/-- How something is looked up by a key, and what is made of the answer. -/
structure Lookup (κ β : Type) where
  method : String
  params : κ → List Json
  read : Json → Except RepositoryError β

namespace Lookup

variable {κ β : Type}

def requests (l : Lookup κ β) (keys : List κ) : List Request :=
  keys.zipIdx.map fun (k, i) => .positional (UInt64.ofNat i) l.method (l.params k)

/-- The answers of one batch in order, up to the first error; what the node does not know is left
out. -/
def readAnswers (l : Lookup κ β) (responses : List Response) :
    List (κ × Nat) → Except RepositoryError (List (κ × β))
  | [] => .ok []
  | (k, i) :: rest =>
    match (answer responses l.method (UInt64.ofNat i)).bind result with
    | .error e => .error e
    | .ok .null => l.readAnswers responses rest
    | .ok value =>
      match l.read value with
      | .error e => .error e
      | .ok b => (l.readAnswers responses rest).map ((k, b) :: ·)

variable {m : Type → Type u} [Monad m]

def fetchPieces (l : Lookup κ β) (t : Transport m) :
    List (List κ) → ExceptT RepositoryError m (List (κ × β))
  | [] => pure []
  | keys :: rest => do
    let responses ← askAll t (l.requests keys)
    let found ← having (l.readAnswers responses keys.zipIdx)
    let others ← l.fetchPieces t rest
    return found ++ others

def fetch (l : Lookup κ β) (t : Transport m) (keys : List κ) :
    ExceptT RepositoryError m (List (κ × β)) :=
  l.fetchPieces t (pieces batchSize keys)

end Lookup

end ChainFeed.Family
