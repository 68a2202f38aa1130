/-!
# Unsigned words written as digits

A word is read from an optional plus sign and at least one digit of the base; its value must be
below 2^64. Quantities of the Ethereum family are such words in base sixteen behind an optional
`0x`.
-/

namespace ChainFeed.Text

def digitValue? (c : Char) : Option Nat :=
  if '0' ≤ c ∧ c ≤ '9' then some (c.toNat - '0'.toNat)
  else if 'a' ≤ c ∧ c ≤ 'f' then some (c.toNat - 'a'.toNat + 10)
  else if 'A' ≤ c ∧ c ≤ 'F' then some (c.toNat - 'A'.toNat + 10)
  else none

def digitsFrom? (base : Nat) : List Char → Nat → Option Nat
  | [], acc => some acc
  | c :: cs, acc =>
    match digitValue? c with
    | some d => if d < base then digitsFrom? base cs (acc * base + d) else none
    | none => none

def natural? (base : Nat) : List Char → Option Nat
  | [] => none
  | c :: cs => digitsFrom? base (c :: cs) 0

def dropPlus : List Char → List Char
  | '+' :: cs => cs
  | cs => cs

def word? (base : Nat) (cs : List Char) : Option UInt64 :=
  match natural? base (dropPlus cs) with
  | some n => if n < UInt64.size then some (UInt64.ofNat n) else none
  | none => none

def decimalWord? (s : String) : Option UInt64 := word? 10 s.toList

def hexDigit (n : Nat) : Char :=
  if n < 10 then Char.ofNat ('0'.toNat + n) else Char.ofNat ('a'.toNat + (n - 10))

def hexDigits (n : Nat) : List Char :=
  if n < 16 then [hexDigit n] else hexDigits (n / 16) ++ [hexDigit (n % 16)]

end ChainFeed.Text

namespace ChainFeed.Quantity

open Text

/-- `0x` and the digits of `n`. -/
def render (n : UInt64) : String := String.ofList ('0' :: 'x' :: hexDigits n.toNat)

def dropMark : List Char → List Char
  | '0' :: 'x' :: cs => cs
  | cs => cs

/-- Reads a quantity, with or without `0x`. -/
def read? (s : String) : Option UInt64 := word? 16 (dropMark s.toList)

end ChainFeed.Quantity
