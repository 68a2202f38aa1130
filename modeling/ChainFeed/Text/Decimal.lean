/-!
# Decimal forms of doubles

A double is printed with the fewest digits that read back as it, the nearest of those. It is read
from its digits by one rounding to a double and one multiplication or division by a power of ten, so
a long numeral need not give the nearest double.
-/

namespace ChainFeed.Text.Decimal

/-- The absolute value of a finite double as `mantissa * 2 ^ exponent`, and whether the double below
is only half as far away as the one above. -/
structure Binary where
  mantissa : Nat
  exponent : Int
  isLowest : Bool

def Binary.ofBits (bits : Nat) : Binary :=
  let fraction : Nat := bits % 0x10000000000000
  let power : Nat := bits / 0x10000000000000 % 2048
  if power = 0 then ⟨fraction, -1074, false⟩
  else ⟨0x10000000000000 + fraction, (power : Int) - 1075, fraction == 0 && decide (1 < power)⟩

structure Digits where
  digits : Nat
  exponent : Int

/-- The place of the first digit of `num / den`, one above its exponent: the least `p` with
`num / den < 10 ^ p`. -/
def leadingPlace (num den : Nat) : Int :=
  if den ≤ num then (Nat.repr (num / den)).length
  else -(((List.range 400).find? fun j => den ≤ num * Nat.pow 10 (j + 1)).getD 400 : Nat)

/-- Of the two neighbours of `value / unit` on a decimal grid, the nearer one that lies between
`low / unit` and `high / unit`; `closed` admits the ends, and a tie goes to the even digit. -/
def onGrid? (low value high : Nat) (unit : Nat) (closed : Bool) : Option Nat :=
  let below := value / unit
  let above := below + 1
  let inside (d : Nat) : Bool :=
    if closed then low ≤ d * unit && d * unit ≤ high else low < d * unit && d * unit < high
  match inside below, inside above with
  | true, false => some below
  | false, true => some above
  | false, false => none
  | true, true =>
    let down := value - below * unit
    let up := above * unit - value
    if down < up || (down == up && below % 2 == 0) then some below else some above

def shortest (b : Binary) : Digits :=
  let scale := b.exponent - 2
  let num := Nat.pow 2 scale.toNat
  let den := Nat.pow 2 (-scale).toNat
  let low := (4 * b.mantissa - (if b.isLowest then 1 else 2)) * num
  let value := 4 * b.mantissa * num
  let high := (4 * b.mantissa + 2) * num
  let place := leadingPlace value den
  let attempt (count : Nat) : Option Digits :=
    let exponent := place - count
    let up := Nat.pow 10 (-exponent).toNat
    let unit := den * Nat.pow 10 exponent.toNat
    (onGrid? (low * up) (value * up) (high * up) unit (b.mantissa % 2 == 0)).map (⟨·, exponent⟩)
  ((List.range 17).findSome? fun n => attempt (n + 1)).getD ⟨0, 0⟩

def Digits.strip (d : Digits) : Nat → Digits
  | 0 => d
  | n + 1 => if d.digits ≠ 0 ∧ d.digits % 10 = 0 then Digits.strip ⟨d.digits / 10, d.exponent + 1⟩ n else d

/-- Positional from five zeros behind the point up to sixteen places before it, else with an
exponent and its sign; a whole number keeps one zero behind the point. -/
def Digits.render (d : Digits) : String :=
  let text := Nat.repr d.digits
  let count : Int := text.length
  let point := count + d.exponent
  let zeros (n : Int) : String := String.ofList (List.replicate n.toNat '0')
  if 0 ≤ d.exponent ∧ point ≤ 16 then text ++ zeros d.exponent ++ ".0"
  else if 0 < point ∧ point ≤ 16 then
    String.ofList (text.toList.take point.toNat) ++ "." ++ String.ofList (text.toList.drop point.toNat)
  else if -5 < point ∧ point ≤ 0 then "0." ++ zeros (-point) ++ text
  else
    let whole := String.ofList (text.toList.take 1)
    let rest := String.ofList (text.toList.drop 1)
    whole ++ (if rest.isEmpty then "" else "." ++ rest) ++
      (if 0 < point then "e+" else "e") ++ toString (point - 1)

def render (x : Float) : String :=
  let bits := x.toBits.toNat
  let sign := if bits / 0x8000000000000000 = 1 then "-" else ""
  let b := Binary.ofBits (bits % 0x8000000000000000)
  if b.mantissa = 0 then sign ++ "0.0" else sign ++ ((shortest b).strip 20).render

def tenPower (n : Nat) : Float := Float.ofScientific 1 false n

/-- `x * 10 ^ e`, one operation at a time; `none` when it is too great for a double. -/
def scale? (x : Float) (e : Int) : Option Float :=
  if 308 < e then (if x == 0 then some x else none)
  else if 0 ≤ e then
    let y := x * tenPower e.toNat
    if y.isInf then none else some y
  else if -308 ≤ e then some (x / tenPower (-e).toNat)
  else if x == 0 then some x
  else scale? (x / tenPower 308) (e + 308)
termination_by (-e).toNat
decreasing_by omega

def gather : List Char → Nat → Nat → Nat × Nat × List Char
  | [], acc, count => (acc, count, [])
  | c :: cs, acc, count =>
    let next := acc * 10 + (c.toNat - '0'.toNat)
    if next < UInt64.size then gather cs next (count + 1) else (acc, count, c :: cs)

def double? (negative : Bool) (whole fraction : List Char) (exponent : Int) : Option Float :=
  let (head, _, left) := gather whole 0 0
  let (digits, taken, _) := gather fraction head 0
  let unsigned := scale? (UInt64.ofNat digits).toFloat ((left.length : Int) - taken + exponent)
  unsigned.map fun x => if negative then -x else x

end ChainFeed.Text.Decimal
