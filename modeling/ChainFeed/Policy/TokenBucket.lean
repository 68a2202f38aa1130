/-!
# Token buckets

A bucket holds at most `limit` tokens and refills at `limit` per period; each admitted call takes
one. Tokens are counted in numbers of a type `α`: doubles when the program runs, rationals where
exact arithmetic is wanted.
-/

namespace ChainFeed

/-- The numbers that tokens are counted in. -/
class TokenNumber (α : Type) extends Add α, Sub α, Mul α, Div α, LE α where
  ofNat : Nat → α
  decLe : (a b : α) → Decidable (a ≤ b)

instance TokenNumber.decidableLe {α : Type} [TokenNumber α] (a b : α) : Decidable (a ≤ b) :=
  TokenNumber.decLe a b

instance : TokenNumber Float where
  ofNat := Float.ofNat
  decLe := inferInstance

instance : TokenNumber Rat where
  ofNat n := n
  decLe := inferInstance

structure TokenBucket (α : Type) where
  capacity : α
  /-- Tokens per second; without a rate the bucket is always full. -/
  rate : Option α
  tokens : α
  refilledAt : Nat

namespace TokenBucket

variable {α : Type} [TokenNumber α]

def seconds (whole nanos : Nat) : α :=
  TokenNumber.ofNat whole + TokenNumber.ofNat nanos / TokenNumber.ofNat 1000000000

def ofMillis (ms : Nat) : α := seconds (ms / 1000) (ms % 1000 * 1000000)

/-- A full bucket for `limit` calls in a period of `micros` microseconds. -/
def full (micros limit now : Nat) : TokenBucket α :=
  { capacity := TokenNumber.ofNat limit
    rate :=
      if micros = 0 then none
      else some (TokenNumber.ofNat limit / seconds (micros / 1000000) (micros % 1000000 * 1000))
    tokens := TokenNumber.ofNat limit
    refilledAt := now }

def level (b : TokenBucket α) (now : Nat) : α :=
  match b.rate with
  | none => b.capacity
  | some rate =>
    let grown := b.tokens + ofMillis (now - b.refilledAt) * rate
    if grown ≤ b.capacity then grown else b.capacity

def acquire (now : Nat) (b : TokenBucket α) : Bool × TokenBucket α :=
  let level := b.level now
  let one : α := TokenNumber.ofNat 1
  if one ≤ level then (true, { b with tokens := level - one, refilledAt := now })
  else (false, { b with tokens := level, refilledAt := now })

end TokenBucket

end ChainFeed
